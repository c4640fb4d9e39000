import Rapp.QueueOrder
import Rapp.RequestCap

/-!
# Who frees a request

`on_message_begin` creates a request, `on_new_request` destroys it after it was
served, and `http_connection_destroy` frees the rest of the connection. The
requests created and destroyed are recorded beside a connection, each by the
slot of the queue it was stored in, together with the callbacks that were made.
-/
namespace Rapp

open CallOutcome (Outcome run run_holds)
open HTTPRequestQueue
open ByteBlock

/-- The blocks that belong to a connection. -/
inductive Freed where
  | tcpConnection
  | requestsBuffer
  | requestQueue
  | responseBuffer
  | response
  | request (slot : Nat)
  | connection
  deriving DecidableEq

/-- `http_request_queue_destroy`. -/
def HTTPRequestQueue.destroy (queue : HTTPRequestQueue) : List Freed :=
  (if queue.buffer.isSome then [.requestsBuffer] else []) ++ [.requestQueue]

def HTTPResponse.destroy (response : HTTPResponse) : List Freed :=
  (if response.buffer.isSome ∧ response.bufferLength ≠ 0 then [.responseBuffer] else []) ++
    [.response]

/-- `http_connection_destroy` with `tcp_connection_destroy`, which also closes an open socket. -/
def HTTPConnection.destroy (m : HTTPConnection) : List Freed :=
  [.tcpConnection] ++ m.queue.destroy ++ m.data.response.destroy ++ [.connection]

def Freed.request? : Freed → Option Nat
  | .request slot => some slot
  | _ => none

/-- The request that `on_message_begin` stores. -/
def createdBy (queue : HTTPRequestQueue) : Callback → List Nat
  | .messageBegin true => [queue.incomingIndex]
  | _ => []

/-- The request that `on_new_request` takes from the queue and destroys. -/
def destroyedBy (queue : HTTPRequestQueue) : Callback → List Nat
  | .messageComplete _ => [queue.outgoingIndex]
  | _ => []

structure OwnedConnection where
  connection : HTTPConnection
  made : List Callback
  created : List Nat
  destroyed : List Nat

namespace OwnedConnection

def new (serverName : Bytes) : OwnedConnection := ⟨.new serverName, [], [], []⟩

/-- The record after a callback of the parser. -/
def note (o : OwnedConnection) (e : Event) (connection : HTTPConnection) : OwnedConnection :=
  match e with
  | .append _ _ => { o with connection := connection }
  | .callback c =>
    { connection := connection
      made := o.made ++ [c]
      created := o.created ++ createdBy o.connection.queue c
      destroyed := o.destroyed ++ destroyedBy o.connection.queue c }

section Step

variable (parseUrl : ParseUrl) (serve : Serve)

def event (e : Event) (o : OwnedConnection) : Result OwnedConnection :=
  (Rapp.step parseUrl (HTTPConnection.onNewRequest serve) e o.connection).map (o.note e)

def appendData (call : Call) (o : OwnedConnection) : Result OwnedConnection :=
  (run (event parseUrl serve) call.events o).bind fun o =>
    if call.accepted then .ok o else .failed o

/-- The connection of the record goes on. -/
def update (f : ConnectionState → ConnectionState) (o : OwnedConnection) : OwnedConnection :=
  { o with connection := o.connection.update f }

def step (e : ConnectionEvent) (o : OwnedConnection) : Result OwnedConnection :=
  match e with
  | .read (.got call) =>
    (o.appendData parseUrl serve call).recover (update ConnectionState.finishCallback)
  | e => (o.connection.step parseUrl serve e).map fun n => { o with connection := n }

end Step

/-- Requests destroyed in all, once `http_connection_destroy` has returned. -/
def destroyedInAll (o : OwnedConnection) : List Nat :=
  o.destroyed ++ o.connection.destroy.filterMap Freed.request?

/-- Every request that was created has been destroyed once. -/
def OwnsOnce (o : OwnedConnection) : Prop :=
  ∀ slot ∈ o.created, o.destroyedInAll.count slot = 1

end OwnedConnection

/-- A message was begun with a request of its own and has not been completed. -/
def messageUnderWay : List Callback → Bool :=
  List.foldl (fun underWay c => match c with
    | .messageBegin allocated => allocated
    | .messageComplete _ => false
    | _ => underWay) false

@[simp] theorem messageUnderWay_concat (cs : List Callback) (c : Callback) :
    messageUnderWay (cs ++ [c]) = match c with
      | .messageBegin allocated => allocated
      | .messageComplete _ => false
      | _ => messageUnderWay cs := by
  cases c <;> simp [messageUnderWay]

/-! ### An empty slot -/

variable {parseUrl : ParseUrl} {serve : Serve}

/-- Without a request in the slot under way nothing more is done. -/
theorem onRequest_empty {queue : HTTPRequestQueue} (h : queue.current = none)
    (hi : queue.incomingIndex < maxRequests) (use : HTTPRequest → Result HTTPRequest)
    (P : HTTPRequestQueue → Prop) :
    (queue.onRequest queue.requests[queue.incomingIndex] use).Holds P := by
  have hslot : queue.requests[queue.incomingIndex] = none := by
    simpa [HTTPRequestQueue.current, Vector.getElem?_eq_getElem hi] using h
  rw [hslot]
  trivial

theorem onIncoming_empty {queue : HTTPRequestQueue} (h : queue.current = none)
    (use : HTTPRequest → Result HTTPRequest) (P : HTTPRequestQueue → Prop) :
    (queue.withIncoming fun pointer => queue.onRequest pointer use).Holds P :=
  withIncoming_holds fun hi => onRequest_empty h hi use P

/-- The callbacks of a message that got no request change nothing. -/
theorem handle_empty {queue : HTTPRequestQueue} (h : queue.current = none) {c : Callback}
    (hb : ∀ allocated, c ≠ .messageBegin allocated) (hc : ∀ pos, c ≠ .messageComplete pos)
    (input : Nat) : (handle parseUrl c input queue).Holds fun q => q = queue ∧
      ∀ pos head memory, c ≠ .headersComplete pos head memory := by
  cases c with
  | messageBegin allocated => exact absurd rfl (hb allocated)
  | url pos data =>
    have hother : ∀ p head memory, Callback.url pos data ≠ .headersComplete p head memory := by
      simp
    simp only [handle, onUrl]
    apply withIncoming_holds
    intro hi
    cases parseUrl data with
    | none => exact ⟨rfl, hother⟩
    | some fields => exact onRequest_empty h hi _ _
  | headerField pos data =>
    have hother : ∀ p head memory,
        Callback.headerField pos data ≠ .headersComplete p head memory := by
      simp
    simp only [handle, onHeaderField]
    apply withIncoming_holds
    intro hi
    split
    · exact ⟨rfl, hother⟩
    · exact onRequest_empty h hi _ _
  | headerValue pos data =>
    exact (onIncoming_empty h _ fun _ => False).map fun _ hfalse => hfalse.elim
  | headersComplete pos head memory =>
    exact (onIncoming_empty h _ fun _ => False).bind (fun _ hfalse => hfalse.elim)
      fun _ hfalse => hfalse.elim
  | body pos data => exact onIncoming_empty h _ _
  | messageComplete pos => exact absurd rfl (hc pos)

/-- A message that gets no request leaves the slot empty. -/
theorem messageBegin_slot (allocated : Bool) (queue : HTTPRequestQueue) :
    (queue.onMessageBegin allocated).Holds fun q =>
      SlotOnly queue q ∧ (allocated = false → q.current = none) := by
  apply withIncoming_holds
  intro hi
  cases allocated with
  | true => exact ⟨slotOnly_set queue _, nofun⟩
  | false => exact ⟨slotOnly_set queue none, fun _ => by simp [HTTPRequestQueue.current, hi]⟩

/-- A request is taken, or the behaviour is undefined. -/
theorem onNewRequest_outgoing (m : HTTPConnection) :
    (HTTPConnection.onNewRequest serve m).Holds fun n =>
      n.queue.incomingIndex = m.queue.incomingIndex ∧
      n.queue.outgoingIndex = m.queue.outgoingIndex + 1 := by
  unfold HTTPConnection.onNewRequest
  split
  · trivial
  · trivial
  · rename_i request queue hq
    obtain ⟨-, -, rfl⟩ := HTTPRequestQueue.getNextRequest_ok hq
    exact ⟨rfl, rfl⟩

namespace OwnedConnection

/-- The record agrees with the queue: the requests destroyed are those of the
completed messages, and one more was created while a message is under way. -/
structure Accounted (phase : Phase) (o : OwnedConnection) : Prop where
  outgoing : o.connection.queue.outgoingIndex = o.connection.queue.incomingIndex
  destroyed : o.destroyed = List.range o.connection.queue.incomingIndex
  created : o.created = List.range
    (o.connection.queue.incomingIndex + if messageUnderWay o.made then 1 else 0)
  between : phase = .idle → messageUnderWay o.made = false
  inside : phase = .body → messageUnderWay o.made = true
  empty : phase = .head → messageUnderWay o.made = false → o.connection.queue.current = none

theorem accounted_new (serverName : Bytes) : Accounted .idle (new serverName) where
  outgoing := rfl
  destroyed := rfl
  created := rfl
  between := fun _ => rfl
  inside := nofun
  empty := nofun

/-- Whatever keeps the indices and the slot under way. -/
theorem Accounted.congr {phase : Phase} {o p : OwnedConnection} (h : Accounted phase o)
    (hmade : p.made = o.made) (hcreated : p.created = o.created)
    (hdestroyed : p.destroyed = o.destroyed)
    (hr : p.connection.queue.requests = o.connection.queue.requests)
    (hi : p.connection.queue.incomingIndex = o.connection.queue.incomingIndex)
    (ho : p.connection.queue.outgoingIndex = o.connection.queue.outgoingIndex) :
    Accounted phase p where
  outgoing := by rw [hi, ho]; exact h.outgoing
  destroyed := by rw [hi, hdestroyed]; exact h.destroyed
  created := by rw [hi, hcreated, hmade]; exact h.created
  between := by rw [hmade]; exact h.between
  inside := by rw [hmade]; exact h.inside
  empty := by rw [hmade, HTTPRequestQueue.current_congr hr hi]; exact h.empty

/-- A callback inside a message is neither between two messages before nor after. -/
theorem inside_of_next {phase next : Phase} {c : Callback} (hp : phase.next c = some next)
    (hb : ∀ allocated, c ≠ .messageBegin allocated) (hc : ∀ pos, c ≠ .messageComplete pos) :
    phase ≠ .idle ∧ next ≠ .idle := by
  cases c with
  | messageBegin allocated => exact absurd rfl (hb allocated)
  | messageComplete pos => exact absurd rfl (hc pos)
  | _ => cases phase <;> cases hp <;> exact ⟨nofun, nofun⟩

theorem event_handle (o : OwnedConnection) {c : Callback} (hc : ∀ pos, c ≠ .messageComplete pos) :
    o.event parseUrl serve (.callback c) =
      (handle parseUrl c o.connection.input o.connection.queue).map fun queue =>
        o.note (.callback c) (o.connection.setQueue queue) := by
  simp only [event, Rapp.step]
  cases c with
  | messageComplete pos => exact absurd rfl (hc pos)
  | _ =>
    simp only [dispatch]
    cases handle parseUrl _ o.connection.input o.connection.queue <;> rfl

/-- A callback inside a message creates and destroys nothing. -/
theorem Accounted.inMessage {phase next : Phase} {o : OwnedConnection} (h : Accounted phase o)
    {c : Callback} (hp : phase.next c = some next) (hb : ∀ allocated, c ≠ .messageBegin allocated)
    (hc : ∀ pos, c ≠ .messageComplete pos) :
    (o.event parseUrl serve (.callback c)).Holds (Accounted next) := by
  have hnone : createdBy o.connection.queue c = [] ∧ destroyedBy o.connection.queue c = [] ∧
      messageUnderWay (o.made ++ [c]) = messageUnderWay o.made := by
    cases c with
    | messageBegin allocated => exact absurd rfl (hb allocated)
    | messageComplete pos => exact absurd rfl (hc pos)
    | _ => simp [createdBy, destroyedBy]
  obtain ⟨hcreated, hdestroyed, hunder⟩ := hnone
  have hidle := inside_of_next hp hb hc
  rw [event_handle o hc]
  cases hmade : messageUnderWay o.made with
  | true =>
    refine (handle_keeps hb hc o.connection.input o.connection.queue).map fun queue hqueue => ?_
    have hi : queue.incomingIndex = o.connection.queue.incomingIndex := hqueue.slot.incoming
    refine ⟨?_, ?_, ?_, fun hn => absurd hn hidle.2, fun _ => hunder.trans hmade, fun _ hf => ?_⟩
    · exact hqueue.slot.outgoing.trans (h.outgoing.trans hi.symm)
    · simp only [note, hdestroyed, List.append_nil, Machine.setQueue_queue, hi]
      exact h.destroyed
    · simp only [note, hcreated, List.append_nil, Machine.setQueue_queue, hi, hunder]
      exact h.created
    · cases hf.symm.trans (hunder.trans hmade)
  | false =>
    have hhead : phase = .head := by
      cases hphase : phase with
      | idle => exact absurd hphase hidle.1
      | head => rfl
      | body => cases hmade.symm.trans (h.inside hphase)
    have hslot := h.empty hhead hmade
    refine (handle_empty hslot hb hc o.connection.input).map ?_
    rintro queue ⟨rfl, hheaders⟩
    have hnext : next = .head := by
      subst hhead
      cases c <;> simp_all [Phase.next]
    refine ⟨h.outgoing, ?_, ?_, fun hn => absurd hn hidle.2, fun hn => ?_, fun _ _ => hslot⟩
    · simp only [note, hdestroyed, List.append_nil]
      exact h.destroyed
    · simp only [note, hcreated, List.append_nil, hunder]
      exact h.created
    · cases hnext.symm.trans hn

/-- The step lemma for the callbacks of the parser. -/
theorem Accounted.callback {phase next : Phase} {o : OwnedConnection} (h : Accounted phase o)
    {c : Callback} (hp : phase.next c = some next) :
    (o.event parseUrl serve (.callback c)).Holds (Accounted next) := by
  cases c with
  | messageBegin allocated =>
    obtain ⟨rfl, rfl⟩ := Phase.next_messageBegin.mp hp
    have hmade := h.between rfl
    refine Outcome.Holds.map (P := fun n : HTTPConnection =>
      SlotOnly o.connection.queue n.queue ∧ (allocated = false → n.queue.current = none)) ?_ ?_
    · exact (messageBegin_slot allocated o.connection.queue).map fun queue hqueue => hqueue
    · rintro n ⟨hslot, hempty⟩
      refine ⟨hslot.outgoing.trans (h.outgoing.trans hslot.incoming.symm), ?_, ?_, by simp,
        by simp, ?_⟩
      · simp only [note, destroyedBy, List.append_nil, hslot.incoming]
        exact h.destroyed
      · simp only [note, hslot.incoming, messageUnderWay_concat, h.created, hmade]
        cases allocated <;> simp [createdBy, List.range_succ]
      · intro _ hf
        simp only [note, messageUnderWay_concat] at hf
        exact hempty hf
  | messageComplete pos =>
    obtain ⟨rfl, rfl⟩ := Phase.next_messageComplete.mp hp
    have hmade := h.inside rfl
    simp only [event, Rapp.step, dispatch, handle]
    cases hq : o.connection.queue.onMessageComplete with
    | failed queue => exact absurd hq (onMessageComplete_ne_failed queue)
    | undefined why => trivial
    | ok queue =>
      obtain ⟨requests, rfl, -, -⟩ := HTTPRequestQueue.onMessageComplete_ok hq
      refine Outcome.Holds.map (P := fun n : HTTPConnection =>
        n.queue.incomingIndex = o.connection.queue.incomingIndex + 1 ∧
        n.queue.outgoingIndex = o.connection.queue.outgoingIndex + 1) ?_ ?_
      · exact onNewRequest_outgoing _
      · rintro n ⟨hincoming, houtgoing⟩
        refine ⟨?_, ?_, ?_, fun _ => ?_, by simp, by simp⟩
        · simp only [note, hincoming, houtgoing, h.outgoing]
        · simp only [note, destroyedBy, hincoming, h.destroyed, h.outgoing, List.range_succ]
        · simp only [note, createdBy, hincoming, h.created, hmade, messageUnderWay_concat,
            List.append_nil]
          rfl
        · simp only [note, messageUnderWay_concat]
  | _ => exact h.inMessage hp (by simp) (by simp)

/-! ### Runs -/

/-- As long as the callbacks come in the documented order the record agrees. -/
def AccountedFor (o : OwnedConnection) : Prop :=
  (Phase.idle.after o.made).isSome →
    ∃ phase, Phase.idle.after o.made = some phase ∧ Accounted phase o

theorem accountedFor_event (e : Event) {o : OwnedConnection} (h : o.AccountedFor) :
    (o.event parseUrl serve e).Holds AccountedFor := by
  cases e with
  | append data resized =>
    simp only [event, Rapp.step]
    refine Outcome.Holds.map (P := fun n : HTTPConnection =>
      n.queue.requests = o.connection.queue.requests ∧
      n.queue.incomingIndex = o.connection.queue.incomingIndex ∧
      n.queue.outgoingIndex = o.connection.queue.outgoingIndex) ?_ ?_
    · exact (grow_slotOnly data resized o.connection.queue).map fun queue hqueue => hqueue
    · rintro n ⟨hr, hi, ho⟩ hmade
      obtain ⟨phase, hphase, hacc⟩ := h hmade
      exact ⟨phase, hphase, hacc.congr rfl rfl rfl hr hi ho⟩
  | callback c =>
    by_cases hmade : (Phase.idle.after (o.made ++ [c])).isSome
    · obtain ⟨phase, hphase, hacc⟩ := h (Phase.after_front hmade)
      obtain ⟨next, hnext⟩ := Phase.next_of_after hmade hphase
      have hmap : (o.event parseUrl serve (.callback c)).Holds fun p =>
          Accounted next p ∧ p.made = o.made ++ [c] := by
        have hacc' : (o.event parseUrl serve (.callback c)).Holds (Accounted next) :=
          hacc.callback hnext
        simp only [event] at hacc' ⊢
        cases hx : Rapp.step parseUrl (HTTPConnection.onNewRequest serve) (.callback c)
            o.connection with
        | undefined why => trivial
        | _ =>
          rw [hx] at hacc'
          exact ⟨hacc', rfl⟩
      refine hmap.mono fun p hp _ => ⟨next, ?_, hp.1⟩
      rw [hp.2, Phase.after_concat, hphase]
      exact hnext
    · have hmap : (o.event parseUrl serve (.callback c)).Holds fun p =>
          p.made = o.made ++ [c] := by
        simp only [event]
        cases Rapp.step parseUrl (HTTPConnection.onNewRequest serve) (.callback c)
          o.connection <;> trivial
      exact hmap.mono fun p hp hsome => absurd (hp ▸ hsome) hmade

/-- Only the queue counts. -/
theorem AccountedFor.congr {o p : OwnedConnection} (h : o.AccountedFor)
    (hmade : p.made = o.made) (hcreated : p.created = o.created)
    (hdestroyed : p.destroyed = o.destroyed)
    (hqueue : p.connection.queue = o.connection.queue) : p.AccountedFor := by
  intro hsome
  rw [hmade] at hsome ⊢
  obtain ⟨phase, hphase, hacc⟩ := h hsome
  exact ⟨phase, hphase,
    hacc.congr hmade hcreated hdestroyed (by rw [hqueue]) (by rw [hqueue]) (by rw [hqueue])⟩

theorem accountedFor_step (e : ConnectionEvent) {o : OwnedConnection} (h : o.AccountedFor) :
    (o.step parseUrl serve e).Holds AccountedFor := by
  have hother : (o.connection.step parseUrl serve e).Holds
      (fun n => n.queue = o.connection.queue) →
      ((o.connection.step parseUrl serve e).map fun n =>
        { o with connection := n }).Holds AccountedFor := fun hx =>
    hx.map fun n hn => h.congr rfl rfl rfl hn
  cases e with
  | read result =>
    cases result with
    | got call =>
      simp only [step, appendData]
      have hrun := run_holds (event parseUrl serve) (fun e o h => accountedFor_event e h)
        call.events h
      refine Outcome.Holds.recover (P := AccountedFor) (hrun.bind (fun p hp => ?_) fun p hp => hp)
        (fun p hp => hp) fun p hp => hp.congr rfl rfl rfl rfl
      split
      · exact hp
      · exact hp
    | shutdown => exact hother rfl
    | wouldBlock => exact hother rfl
    | error => exact hother rfl
  | write shrunk result =>
    refine hother ?_
    simp only [HTTPConnection.step, HTTPConnection.onWrite]
    split
    · trivial
    · split
      · rfl
      · split <;> rfl
  | close => exact hother rfl
  | append piece => exact hother rfl

/-- The record is beside the connection: without it the run is that of the connection. -/
theorem step_connection (e : ConnectionEvent) (o : OwnedConnection) :
    (o.step parseUrl serve e).map connection = o.connection.step parseUrl serve e := by
  have hevent : ∀ (e : Event) (o : OwnedConnection), (o.event parseUrl serve e).map connection =
      Rapp.step parseUrl (HTTPConnection.onNewRequest serve) e o.connection := by
    intro e o
    rw [event, Outcome.map_map]
    cases e <;> cases Rapp.step parseUrl (HTTPConnection.onNewRequest serve) _ o.connection <;> rfl
  have hother : ((o.connection.step parseUrl serve e).map fun n =>
      { o with connection := n }).map connection = o.connection.step parseUrl serve e := by
    rw [Outcome.map_map]
    cases o.connection.step parseUrl serve e <;> rfl
  cases e with
  | read result =>
    cases result with
    | got call =>
      have happend : (o.appendData parseUrl serve call).map connection =
          Rapp.appendData parseUrl (HTTPConnection.onNewRequest serve) call o.connection := by
        rw [appendData, Rapp.appendData, ← CallOutcome.run_project _ hevent]
        apply Outcome.map_bind
        intro p
        split <;> rfl
      simp only [step, HTTPConnection.step, HTTPConnection.onRead]
      rw [← happend]
      exact Outcome.map_recover fun _ => rfl
    | _ => exact hother
  | _ => exact hother

/-- `http_connection_destroy` frees no request. -/
theorem destroyedInAll_eq (o : OwnedConnection) : o.destroyedInAll = o.destroyed := by
  simp only [destroyedInAll, HTTPConnection.destroy, HTTPRequestQueue.destroy,
    HTTPResponse.destroy]
  split_ifs <;> simp [Freed.request?]

/-- Every request created has been destroyed once when the connection is gone,
exactly if no message was under way. -/
theorem ownsOnce_iff {serverName : Bytes} {es : List ConnectionEvent} {o : OwnedConnection}
    (h : run (step parseUrl serve) es (new serverName) = .ok o)
    (ho : (Phase.idle.after o.made).isSome) :
    o.OwnsOnce ↔ messageUnderWay o.made = false := by
  have hstart : AccountedFor (new serverName) := fun _ => ⟨.idle, rfl, accounted_new serverName⟩
  have hfor := (run_holds (step parseUrl serve) (fun e o h => accountedFor_step e h) es
    hstart).ok h
  obtain ⟨phase, -, hacc⟩ := hfor ho
  rw [OwnsOnce, destroyedInAll_eq, hacc.created, hacc.destroyed]
  constructor
  · intro hall
    by_contra hunder
    rw [Bool.not_eq_false] at hunder
    have hlast := hall o.connection.queue.incomingIndex (by simp [hunder])
    rw [List.count_eq_zero_of_not_mem (by simp)] at hlast
    cases hlast
  · intro hnone slot hslot
    rw [hnone] at hslot
    exact List.count_eq_one_of_mem List.nodup_range (by simpa using hslot)

/-- A request is received as a whole, and the peer closes. -/
def getThenClose : List ConnectionEvent := [.read (.got (wholeGet true)), .close]

theorem ownsOnce_getThenClose : ∃ o, run (step parsePath fun _ _ => []) getThenClose
    (new (ascii "rapp")) = .ok o ∧ (o.OwnsOnce ↔ messageUnderWay o.made = false) := by
  have hrun : ∃ o, run (step parsePath fun _ _ => []) getThenClose (new (ascii "rapp")) = .ok o ∧
      (Phase.idle.after o.made).isSome = true :=
    Outcome.exists_of_toOption (by decide +kernel)
  obtain ⟨o, hrun, ho⟩ := hrun
  exact ⟨o, hrun, ownsOnce_iff hrun ho⟩

/-- The start of a request line, and the peer closes. -/
def partThenClose : List ConnectionEvent :=
  [.read (.got ⟨ascii "GE", some 4096, [.messageBegin true], true⟩), .close]

/-- The connection is destroyed and the request that was begun is not. -/
theorem not_ownsOnce_part : ∃ o, run (step parsePath fun _ _ => []) partThenClose
    (new (ascii "rapp")) = .ok o ∧ (Phase.idle.after o.made).isSome ∧
    o.created = [0] ∧ o.destroyedInAll = [] ∧ ¬ o.OwnsOnce := by
  have hrun : ∃ o, run (step parsePath fun _ _ => []) partThenClose (new (ascii "rapp")) = .ok o ∧
      ((Phase.idle.after o.made).isSome, o.created, o.destroyedInAll) = (true, [0], []) :=
    Outcome.exists_of_toOption (by decide +kernel)
  obtain ⟨o, hrun, hafter⟩ := hrun
  simp only [Prod.mk.injEq] at hafter
  obtain ⟨hordered, hcreated, hdestroyed⟩ := hafter
  refine ⟨o, hrun, hordered, hcreated, hdestroyed, fun h => ?_⟩
  have hlast := h 0 (by simp [hcreated])
  rw [hdestroyed] at hlast
  cases hlast

end OwnedConnection

end Rapp

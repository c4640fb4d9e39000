import Rapp.HttpConnection
import Rapp.Lib.Ledger

/-!
# Response delivery

Seen from outside, a connection is a ledger: what containers appended, what
the socket accepted, and what the response buffer holds. `on_write` releases
a chunk from the buffer before it knows how much `send` takes, so the ledger
stays balanced exactly when every `send` takes the whole chunk.
-/
namespace Rapp

open CallOutcome (Outcome run run_holds Always Admitted)
open FifoLedger (Ledger)
open ByteBlock

/-- Every resize of the response made while serving succeeds. -/
def Serve.Resized (serve : Serve) : Prop :=
  ∀ served request, ∀ piece ∈ serve served request, piece.resized = true

/-- Every resize of the response made in the event itself succeeds. -/
def ConnectionEvent.Resized : ConnectionEvent → Prop
  | .write shrunk _ => shrunk = true
  | .append piece => piece.resized = true
  | _ => True

namespace ConnectionState

def ledger (s : ConnectionState) : Ledger UInt8 := ⟨s.appended, s.sent, s.response.bytes⟩

/-- The response is sound and no byte is unaccounted for. -/
structure Accounted (s : ConnectionState) : Prop where
  sound : s.response.Sound
  balanced : s.ledger.Balanced

/-- An append whose resize succeeds is a gift to the ledger. -/
theorem append_resized {s : ConnectionState} (h : s.response.Sound) {piece : Piece}
    (hp : piece.resized = true) : (s.append piece).response.Sound ∧
      (s.append piece).ledger = s.ledger.give piece.data := by
  obtain ⟨next, hn, hsound, hbytes, -⟩ := HTTPResponse.appendData_resized h piece.data
  simp only [append, hp, hn]
  exact ⟨hsound, by simp only [ledger, Ledger.give, hbytes]⟩

theorem Accounted.append {s : ConnectionState} (h : s.Accounted) {piece : Piece}
    (hp : piece.resized = true) : (s.append piece).Accounted := by
  obtain ⟨hsound, hledger⟩ := append_resized h.sound hp
  exact ⟨hsound, hledger ▸ Ledger.balanced_give h.balanced piece.data⟩

theorem Accounted.foldl_append {s : ConnectionState} (h : s.Accounted) {pieces : List Piece}
    (hp : ∀ piece ∈ pieces, piece.resized = true) :
    (pieces.foldl ConnectionState.append s).Accounted := by
  induction pieces generalizing s with
  | nil => exact h
  | cons piece pieces ih =>
    exact ih (h.append (hp piece (by simp))) fun p hm => hp p (by simp [hm])

theorem Accounted.httpRouterServe {serve : Serve} {s : ConnectionState} (h : s.Accounted)
    (hs : serve.Resized) (request : HTTPRequest) :
    (s.httpRouterServe serve request).Accounted :=
  foldl_append (s := { s with served := s.served ++ [request] }) ⟨h.sound, h.balanced⟩
    (hs s.served request)

end ConnectionState

variable {δ : Type} {parseUrl : ParseUrl}

/-- What the new-request callback keeps of its data, every call of
`http_request_queue_append_data` keeps, whether it succeeds or fails. -/
theorem appendData_holds {notify : Machine δ → Result (Machine δ)} {P : δ → Prop}
    (hnotify : ∀ m : Machine δ, P m.data → (notify m).Holds fun n => P n.data) (call : Call)
    {m : Machine δ} (h : P m.data) :
    (appendData parseUrl notify call m).Holds fun n => P n.data := by
  have hset : ∀ (m : Machine δ) (x : Result HTTPRequestQueue), P m.data →
      (x.map m.setQueue).Holds fun n => P n.data := fun m x hm => by
    cases x <;> first | exact hm | trivial
  have hstep : ∀ e (m : Machine δ), P m.data →
      (step parseUrl notify e m).Holds fun n => P n.data := by
    intro e m hm
    cases e with
    | append data resized =>
      simp only [step]
      cases m.queue.grow data resized <;> first | exact hm | trivial
    | callback c =>
      cases c with
      | messageComplete pos =>
        exact (hset m _ hm).bind (fun n hn => hnotify n hn) fun n hn => hn
      | _ => exact hset m _ hm
  have hrun := run_holds (step parseUrl notify) hstep call.events h
  refine hrun.bind (fun n hn => ?_) fun n hn => hn
  split
  · exact hn
  · exact hn

namespace HTTPConnection

variable {serve : Serve}

/-- The ledger of a connection. -/
def ledger (m : HTTPConnection) : Ledger UInt8 := m.data.ledger

theorem onNewRequest_accounted (hs : serve.Resized) (m : HTTPConnection)
    (h : m.data.Accounted) : (onNewRequest serve m).Holds fun n => n.data.Accounted := by
  unfold onNewRequest
  split
  · trivial
  · trivial
  · rename_i request queue hq
    exact ConnectionState.Accounted.httpRouterServe
      (s := { m.data with response := m.data.response.setLast request.isLast })
      ⟨h.sound, h.balanced⟩ hs request

theorem onRead_accounted (hs : serve.Resized) (result : ReadResult) {m : HTTPConnection}
    (h : m.data.Accounted) :
    (m.onRead parseUrl serve result).Holds fun n => n.data.Accounted := by
  cases result with
  | got call =>
    exact (appendData_holds (onNewRequest_accounted hs) call h).recover (fun n hn => hn)
      fun n hn => ⟨hn.sound, hn.balanced⟩
  | shutdown => exact ⟨h.sound, h.balanced⟩
  | wouldBlock => exact h
  | error => exact ⟨h.sound, h.balanced⟩

/-- `on_write` releases up to `BUFSIZE` bytes; the socket accepts what it takes of them. -/
theorem onWrite_release {m : HTTPConnection} (h : m.data.response.Sound) (result : SendResult) :
    ∃ n, m.onWrite true result = .ok n ∧ n.data.response.Sound ∧ n.ledger =
      m.ledger.release (min m.data.response.bufferLength bufSize) result.limit := by
  obtain ⟨next, hread, hsound, hbytes, hlast⟩ := HTTPResponse.readData_shrunk h bufSize
  have hlen : m.data.response.bytes.length = m.data.response.bufferLength := h
  simp only [onWrite, hread, Option.getD_some, List.length_take]
  by_cases hgot : 0 < min (min m.data.response.bufferLength bufSize) m.data.response.bytes.length
  · rw [if_pos hgot]
    refine ⟨_, rfl, hsound, ?_⟩
    simp only [ledger, ConnectionState.ledger, update_data,
      ConnectionState.tcpConnectionWriteData, Ledger.release, hbytes]
  · -- nothing is held, so nothing is released
    rw [if_neg hgot]
    have hnil : m.data.response.bytes = [] := List.eq_nil_of_length_eq_zero (by
      simp only [bufSize] at hgot
      omega)
    have hledger : ∀ s : ConnectionState, s.response.bytes = next.bytes →
        s.appended = m.data.appended → s.sent = m.data.sent → s.ledger =
          m.data.ledger.release (min m.data.response.bufferLength bufSize) result.limit := by
      intro s hb ha hsent
      rw [hnil, List.drop_nil] at hbytes
      simp [ConnectionState.ledger, Ledger.release, hb, ha, hsent, hbytes, hnil]
    by_cases hl : next.isLast = true
    · rw [if_pos hl]
      exact ⟨_, rfl, hsound, hledger _ rfl rfl rfl⟩
    · rw [if_neg hl]
      exact ⟨_, rfl, hsound, hledger _ rfl rfl rfl⟩

/-- Whether `send` takes the whole chunk that `on_write` reads for it. -/
def TakesChunk (m : HTTPConnection) : ConnectionEvent → Prop
  | .write _ result => min m.data.response.bufferLength bufSize ≤ result.limit
  | _ => True

/-- The step lemma: only a `send` that leaves bytes of the chunk breaks the balance. -/
theorem step_accounted (hs : serve.Resized) {e : ConnectionEvent} (he : e.Resized)
    {m n : HTTPConnection} (h : m.data.Accounted) (hn : m.step parseUrl serve e = .ok n) :
    n.data.response.Sound ∧ (n.ledger.Balanced ↔ m.TakesChunk e) := by
  cases e with
  | read result =>
    have hacc := (onRead_accounted hs result h).ok hn
    exact ⟨hacc.sound, iff_of_true hacc.balanced trivial⟩
  | write shrunk result =>
    cases he
    obtain ⟨n', hn', hsound, hledger⟩ := onWrite_release h.sound result
    cases hn.symm.trans hn'
    have hle : min m.data.response.bufferLength bufSize ≤ m.ledger.held.length := by
      have hlen : m.data.response.bytes.length = m.data.response.bufferLength := h.sound
      simp only [ledger, ConnectionState.ledger]
      omega
    exact ⟨hsound, by rw [hledger]; exact Ledger.balanced_release_iff h.balanced hle⟩
  | close =>
    cases hn
    exact ⟨h.sound, iff_of_true h.balanced trivial⟩
  | append piece =>
    cases hn
    have hacc := h.append he
    exact ⟨hacc.sound, iff_of_true hacc.balanced trivial⟩

/-- From a sound state `on_write` never meets a NULL buffer. -/
theorem onWrite_total {m : HTTPConnection} (h : m.data.response.Sound) (result : SendResult) :
    ∃ n, m.onWrite true result = .ok n := by
  obtain ⟨n, hn, -⟩ := onWrite_release h result
  exact ⟨n, hn⟩

theorem accounted_new (serverName : Bytes) : (new serverName).data.Accounted :=
  ⟨HTTPResponse.sound_new serverName, rfl⟩

/-- In a run whose resizes succeed, the bytes the socket accepted followed by
the bytes still held are the bytes appended in every state if and only if
every `send` takes the whole chunk read for it. -/
theorem delivered_iff_takesChunk (hs : serve.Resized) (serverName : Bytes)
    (es : List ConnectionEvent) (he : ∀ e ∈ es, e.Resized) :
    Always (step parseUrl serve) (fun m => m.ledger.Balanced) (new serverName) es ↔
      Admitted (step parseUrl serve) TakesChunk (new serverName) es := by
  refine CallOutcome.always_iff_admitted (accounted_new serverName) (fun m hm => hm.balanced)
    (fun e hmem m n hm hn => (step_accounted hs (he e hmem) hm hn).2)
    (fun e hmem m n hm hn hb => ⟨(step_accounted hs (he e hmem) hm hn).1, hb⟩) ?_
  intro e hmem m hm hnot
  cases e with
  | write shrunk result =>
    cases he _ hmem
    exact onWrite_total hm.sound result
  | _ => exact absurd trivial hnot

/-- Ten bytes appended in two pieces and taken by one `send`. -/
theorem delivered_iff_takesChunk_hello :
    Always (step parsePath fun _ _ => []) (fun m => m.ledger.Balanced) (new (ascii "rapp"))
        [.append ⟨ascii "hello", true⟩, .append ⟨ascii "world", true⟩, .write true (.accepted 10)] ↔
      Admitted (step parsePath fun _ _ => []) TakesChunk (new (ascii "rapp"))
        [.append ⟨ascii "hello", true⟩, .append ⟨ascii "world", true⟩,
          .write true (.accepted 10)] :=
  delivered_iff_takesChunk (fun _ _ _ h => by cases h) _ _ (by simp [ConnectionEvent.Resized])

/-- A `send` that takes three of five bytes: the other two are gone. -/
theorem not_delivered_shortSend :
    ¬ Always (step parsePath fun _ _ => []) (fun m => m.ledger.Balanced) (new (ascii "rapp"))
      [.append ⟨ascii "hello", true⟩, .write true (.accepted 3)] := by
  intro h
  have hrun : ∃ m, run (step parsePath fun _ _ => [])
      [.append ⟨ascii "hello", true⟩, .write true (.accepted 3)] (new (ascii "rapp")) = .ok m ∧
      m.ledger = ⟨ascii "hello", ascii "hel", []⟩ :=
    Outcome.exists_of_toOption (by decide +kernel)
  obtain ⟨m, hm, hledger⟩ := hrun
  have hbalanced : m.ledger.Balanced := h _ [] m (List.append_nil _).symm hm
  rw [hledger] at hbalanced
  exact absurd hbalanced (by decide +kernel)

end HTTPConnection

end Rapp

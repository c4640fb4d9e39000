import Rapp.ResponseDelivery

/-!
# The end of a connection

The server ends a connection on its own initiative when the parser rejects the
input or when the last response seems to be out. It never cuts a response off
in a run in which every `send` takes its chunk, every resize of the response
succeeds, and input is rejected only while no response is pending.
-/
namespace Rapp

open CallOutcome (Outcome run Always Admitted)
open FifoLedger (Ledger)
open ByteBlock

namespace HTTPConnection

variable {parseUrl : ParseUrl} {serve : Serve}

/-- The peer closed, or a socket call failed with an error other than `EAGAIN`. -/
def Over (s : ConnectionState) : Prop := s.peerClosed = true ∨ s.socketFailed = true

/-- `on_read` and `on_write` run. -/
def OwnInitiative : ConnectionEvent → Prop
  | .read _ | .write _ _ => True
  | _ => False

/-- Whenever `on_read` or `on_write` calls `finish_callback` and the connection
is not over, the socket has accepted every byte appended. -/
def NeverTruncates (step : ConnectionEvent → HTTPConnection → Result HTTPConnection)
    (start : HTTPConnection) (es : List ConnectionEvent) : Prop :=
  ∀ xs e ys m n, es = xs ++ e :: ys → run step xs start = .ok m → step e m = .ok n →
    OwnInitiative e → m.data.finished < n.data.finished → ¬ Over n.data →
    n.data.sent = n.data.appended

/-- What an event must meet before the connection is over: a rejected input
finds nothing pending and makes containers append nothing, and a write loses
neither bytes of its chunk in `send` nor the rest of the buffer in the shrink. -/
def KeepsPending (parseUrl : ParseUrl) (serve : Serve) (m : HTTPConnection)
    (e : ConnectionEvent) : Prop :=
  Over m.data ∨ match e with
    | .read (.got call) => ∀ n, appendData parseUrl (onNewRequest serve) call m = .failed n →
        m.data.response.bufferLength = 0 ∧ n.data.appended = m.data.appended
    | .write shrunk result => (bufSize < m.data.response.bufferLength → shrunk = true) ∧
        (result = .error ∨ min m.data.response.bufferLength bufSize ≤ result.limit)
    | .append piece => piece.resized = true
    | _ => True

/-- Until the connection is over no byte is unaccounted for. -/
def AccountedUntilOver (m : HTTPConnection) : Prop := Over m.data ∨ m.data.Accounted

/-! ### What containers cannot do -/

/-- What serving leaves alone. -/
structure Untouched (s t : ConnectionState) : Prop where
  finished : t.finished = s.finished
  sent : t.sent = s.sent
  peerClosed : t.peerClosed = s.peerClosed
  socketFailed : t.socketFailed = s.socketFailed

theorem Untouched.trans {s t u : ConnectionState} (h : Untouched s t) (k : Untouched t u) :
    Untouched s u :=
  ⟨k.finished.trans h.finished, k.sent.trans h.sent, k.peerClosed.trans h.peerClosed,
    k.socketFailed.trans h.socketFailed⟩

theorem Untouched.over_iff {s t : ConnectionState} (h : Untouched s t) : Over t ↔ Over s := by
  rw [Over, Over, h.peerClosed, h.socketFailed]

theorem untouched_append (s : ConnectionState) (piece : Piece) :
    Untouched s (s.append piece) := by
  unfold ConnectionState.append
  split <;> exact ⟨rfl, rfl, rfl, rfl⟩

theorem untouched_foldl_append (pieces : List Piece) (s : ConnectionState) :
    Untouched s (pieces.foldl ConnectionState.append s) := by
  induction pieces generalizing s with
  | nil => exact ⟨rfl, rfl, rfl, rfl⟩
  | cons piece pieces ih => exact (untouched_append s piece).trans (ih (s.append piece))

/-- Parsing input neither finishes the connection nor sends, closes or fails. -/
theorem untouched_appendData (parseUrl : ParseUrl) (serve : Serve) (call : Call)
    (m : HTTPConnection) :
    (appendData parseUrl (onNewRequest serve) call m).Holds fun n => Untouched m.data n.data := by
  refine appendData_holds (P := Untouched m.data) ?_ call ⟨rfl, rfl, rfl, rfl⟩
  intro k hk
  unfold onNewRequest
  split
  · trivial
  · trivial
  · rename_i request queue hq
    have hserved : Untouched k.data { k.data with
        response := k.data.response.setLast request.isLast
        served := k.data.served ++ [request] } := ⟨rfl, rfl, rfl, rfl⟩
    exact (hk.trans hserved).trans (untouched_foldl_append (serve k.data.served request) _)

/-! ### Writes -/

/-- A chunk that empties the buffer needs no shrink. -/
theorem onWrite_small {m : HTTPConnection} {shrunk : Bool}
    (h : bufSize < m.data.response.bufferLength → shrunk = true) (result : SendResult) :
    m.onWrite shrunk result = m.onWrite true result := by
  by_cases hlt : bufSize < m.data.response.bufferLength
  · rw [h hlt]
  · have hread : m.data.response.readData bufSize shrunk =
        m.data.response.readData bufSize true := by
      have hrest :
          m.data.response.bufferLength - min m.data.response.bufferLength bufSize = 0 := by
        omega
      simp only [HTTPResponse.readData, if_pos hrest]
    simp only [onWrite, hread]

/-- With something pending a write is a `send`, which never ends the connection. -/
theorem onWrite_pending {m n : HTTPConnection} {result : SendResult}
    (h : m.data.response.Sound) (hpos : 0 < m.data.response.bufferLength)
    (hn : m.onWrite true result = .ok n) : n.data.finished = m.data.finished ∧
      n.data.peerClosed = m.data.peerClosed ∧
      n.data.socketFailed = (m.data.socketFailed || result == .error) := by
  obtain ⟨next, hread, -⟩ := HTTPResponse.readData_shrunk h bufSize
  have hlen : m.data.response.bytes.length = m.data.response.bufferLength := h
  simp only [onWrite, hread, Option.getD_some, List.length_take] at hn
  rw [if_pos (by simp only [bufSize]; omega)] at hn
  cases hn
  exact ⟨rfl, rfl, rfl⟩

/-- With nothing pending a write sends nothing. -/
theorem onWrite_drained {m n : HTTPConnection} {result : SendResult}
    (h : m.data.response.Sound) (hzero : m.data.response.bufferLength = 0)
    (hn : m.onWrite true result = .ok n) : n.data.sent = m.data.sent ∧
      n.data.appended = m.data.appended ∧ n.data.peerClosed = m.data.peerClosed ∧
      n.data.socketFailed = m.data.socketFailed := by
  obtain ⟨next, hread, -⟩ := HTTPResponse.readData_shrunk h bufSize
  simp only [onWrite, hread, hzero, Nat.zero_min, List.take_zero, Option.getD_some,
    List.length_nil, Nat.lt_irrefl, if_false] at hn
  split at hn <;> (cases hn; exact ⟨rfl, rfl, rfl, rfl⟩)

/-- A sound response that counts nothing holds nothing, and all is accepted. -/
theorem sent_of_drained {m : HTTPConnection} (h : m.data.Accounted)
    (hzero : m.data.response.bufferLength = 0) : m.data.sent = m.data.appended :=
  h.balanced.accepted_eq (List.eq_nil_of_length_eq_zero (Eq.trans h.sound hzero))

/-! ### The step lemmas -/

theorem over_onWrite {shrunk : Bool} {result : SendResult} {m n : HTTPConnection}
    (h : Over m.data) (hn : m.onWrite shrunk result = .ok n) : Over n.data := by
  unfold onWrite at hn
  split at hn
  · cases hn
  · dsimp only at hn
    split at hn
    · cases hn
      rcases h with hp | hf
      · exact .inl hp
      · exact .inr (by simp [ConnectionState.tcpConnectionWriteData, hf])
    · split at hn <;> (cases hn; exact h)

/-- A connection that is over stays so. -/
theorem over_step {e : ConnectionEvent} {m n : HTTPConnection} (h : Over m.data)
    (hn : m.step parseUrl serve e = .ok n) : Over n.data := by
  cases e with
  | read result =>
    cases result with
    | got call =>
      have hover := (untouched_appendData parseUrl serve call m).recover
        (f := update ConnectionState.finishCallback) (Q := fun n => Over n.data)
        (fun n hn => hn.over_iff.mpr h) (fun n hn => hn.over_iff.mpr h)
      exact hover.ok hn
    | shutdown => cases hn; exact .inl rfl
    | wouldBlock => cases hn; exact h
    | error => cases hn; exact .inr rfl
  | write shrunk result => exact over_onWrite h hn
  | close => cases hn; exact .inl rfl
  | append piece =>
    cases hn
    exact (untouched_append m.data piece).over_iff.mpr h

/-- Admissible events keep every byte accounted for until the connection is over. -/
theorem accounted_step (hs : serve.Resized) {e : ConnectionEvent} {m n : HTTPConnection}
    (h : AccountedUntilOver m) (hc : KeepsPending parseUrl serve m e)
    (hn : m.step parseUrl serve e = .ok n) : AccountedUntilOver n := by
  rcases h with hover | hacc
  · exact .inl (over_step hover hn)
  rcases hc with hover | hc
  · exact .inl (over_step hover hn)
  have hkept : e.Resized → m.TakesChunk e → AccountedUntilOver n := fun he ht =>
    have hstep := step_accounted hs he hacc hn
    .inr ⟨hstep.1, hstep.2.mpr ht⟩
  cases e with
  | read result => exact hkept trivial trivial
  | close => exact hkept trivial trivial
  | append piece => exact hkept hc trivial
  | write shrunk result =>
    obtain ⟨hshrunk, hsend⟩ := hc
    have hn' : m.step parseUrl serve (.write true result) = .ok n :=
      (onWrite_small hshrunk result).symm.trans hn
    have hresized : (ConnectionEvent.write true result).Resized := rfl
    have hstep := step_accounted hs hresized hacc hn'
    rcases hsend with rfl | htakes
    · rcases Nat.eq_zero_or_pos m.data.response.bufferLength with hzero | hpos
      · exact .inr ⟨hstep.1, hstep.2.mpr (by simp [TakesChunk, hzero])⟩
      · exact .inl (.inr (by rw [(onWrite_pending hacc.sound hpos hn').2.2]; simp))
    · exact .inr ⟨hstep.1, hstep.2.mpr htakes⟩

/-- An admissible event that ends a connection finds everything sent. -/
theorem sent_of_finish {e : ConnectionEvent} {m n : HTTPConnection} (h : AccountedUntilOver m)
    (hc : KeepsPending parseUrl serve m e) (hn : m.step parseUrl serve e = .ok n)
    (hown : OwnInitiative e) (hfinish : m.data.finished < n.data.finished)
    (hopen : ¬ Over n.data) : n.data.sent = n.data.appended := by
  have hm : ¬ Over m.data := fun hover => hopen (over_step hover hn)
  have hacc := h.resolve_left hm
  have hc' := hc.resolve_left hm
  cases e with
  | read result =>
    cases result with
    | got call =>
      have hframe := untouched_appendData parseUrl serve call m
      rcases Outcome.recover_eq_ok.mp hn with hok | ⟨l, hl, rfl⟩
      · have := (hframe.ok hok).finished
        omega
      · obtain ⟨hzero, happended⟩ := hc' l hl
        rw [hl] at hframe
        have hsent : l.data.sent = m.data.sent := Untouched.sent hframe
        exact hsent.trans ((sent_of_drained hacc hzero).trans happended.symm)
    | shutdown => cases hn; exact absurd (.inl rfl) hopen
    | wouldBlock => cases hn; exact absurd hfinish (lt_irrefl _)
    | error => cases hn; exact absurd (.inr rfl) hopen
  | write shrunk result =>
    have hn' : m.onWrite true result = .ok n := (onWrite_small hc'.1 result).symm.trans hn
    rcases Nat.eq_zero_or_pos m.data.response.bufferLength with hzero | hpos
    · obtain ⟨hsent, happended, -, -⟩ := onWrite_drained hacc.sound hzero hn'
      rw [hsent, happended]
      exact sent_of_drained hacc hzero
    · have := (onWrite_pending hacc.sound hpos hn').1
      omega
  | close => exact absurd hown id
  | append piece => exact absurd hown id

/-- In a run whose events keep what is pending, the server ends no connection
of its own accord before everything appended is sent. -/
theorem neverTruncates_of_keepsPending (hs : serve.Resized) (serverName : Bytes)
    (es : List ConnectionEvent)
    (h : Admitted (step parseUrl serve) (KeepsPending parseUrl serve) (new serverName) es) :
    NeverTruncates (step parseUrl serve) (new serverName) es := by
  have hrun : Always (step parseUrl serve) AccountedUntilOver (new serverName) es :=
    CallOutcome.always_of_admitted (.inr (accounted_new serverName))
      (fun e _ m n hm hc hn => accounted_step hs hm hc hn) h
  intro xs e ys m n he hm hn hown hfinish hopen
  exact sent_of_finish (hrun xs _ m he hm) (h xs e ys m he hm) hn hown hfinish hopen

/-- A container that answers every request the same way. -/
def answerOk : Serve := fun _ _ => [⟨ascii "HTTP/1.1 200 OK\r\n\r\n", true⟩]

theorem answerOk_resized : answerOk.Resized := by
  intro served request piece hp
  cases List.mem_singleton.mp hp
  rfl

/-- A last request, its response, and the write that ends the connection. -/
theorem neverTruncates_lastGet :
    NeverTruncates (step parsePath answerOk) (new (ascii "rapp"))
      [.read (.got (wholeGet false)), .write true (.accepted bufSize),
        .write true (.accepted bufSize)] := by
  refine neverTruncates_of_keepsPending answerOk_resized _ _ ?_
  have hwrite : ∀ m : HTTPConnection,
      KeepsPending parsePath answerOk m (.write true (.accepted bufSize)) := fun m =>
    .inr ⟨fun _ => rfl, .inr (Nat.min_le_right _ _)⟩
  refine CallOutcome.admitted_cons (.inr fun n hn => ?_) fun m _ =>
    CallOutcome.admitted_cons (hwrite m) fun m _ =>
    CallOutcome.admitted_cons (hwrite m) fun m _ => CallOutcome.admitted_nil _ m
  have hok : ∃ l, appendData parsePath (onNewRequest answerOk) (wholeGet false)
      (new (ascii "rapp")) = .ok l ∧ l.queue.incomingIndex = 1 :=
    Outcome.exists_of_toOption (by decide +kernel)
  obtain ⟨l, hl, -⟩ := hok
  cases hl.symm.trans hn

/-- Malformed input behind a good request: the pending response is cut off. -/
theorem truncates_malformedInput :
    ¬ NeverTruncates (step parsePath answerOk) (new (ascii "rapp"))
      [.read (.got (wholeGet true)), .read (.got ⟨ascii "casual data", some 4096, [], false⟩)] := by
  intro h
  have hfirst : ∃ m, run (step parsePath answerOk) [.read (.got (wholeGet true))]
      (new (ascii "rapp")) = .ok m ∧ m.data.finished = 0 :=
    Outcome.exists_of_toOption (by decide +kernel)
  obtain ⟨m, hm, hbefore⟩ := hfirst
  have hboth : ∃ n, run (step parsePath answerOk) [.read (.got (wholeGet true)),
      .read (.got ⟨ascii "casual data", some 4096, [], false⟩)] (new (ascii "rapp")) = .ok n ∧
      (n.data.finished, n.data.peerClosed, n.data.socketFailed, n.data.sent,
        n.data.appended.length) = (1, false, false, [], 19) :=
    Outcome.exists_of_toOption (by decide +kernel)
  obtain ⟨n, hn, hafter⟩ := hboth
  simp only [Prod.mk.injEq] at hafter
  obtain ⟨hfinished, hpeer, hsocket, hsent, happended⟩ := hafter
  have hlast : step parsePath answerOk
      (.read (.got ⟨ascii "casual data", some 4096, [], false⟩)) m = .ok n := by
    rw [← List.singleton_append, CallOutcome.run_concat, hm] at hn
    exact hn
  have hall := h [.read (.got (wholeGet true))] _ [] m n rfl hm hlast trivial (by omega)
    (by simp [Over, hpeer, hsocket])
  rw [hsent] at hall
  rw [← hall] at happended
  cases happended

end HTTPConnection

end Rapp

import Rapp.ServerWatches
import Rapp.TruncatedClose

/-!
# The record of destructions

What may happen to a connection, and two parts of the server's invariant: the
collector's list holds the connections that are to finish, and the record says
of each connection that is there that it was not destroyed.
-/
namespace Rapp

open CallOutcome (Guarded)
open ByteBlock

/-! ### What a callback does to its connection -/

/-- Nothing, or a call of `finish_callback`, before which the socket may be closed. -/
def FinishEffect (before after : ConnectionState) : Prop :=
  (after.finished = before.finished ∧ after.tcpOpen = before.tcpOpen) ∨
    (after.finished = before.finished + 1 ∧ (after.tcpOpen = true → before.tcpOpen = true))

theorem tcpOpen_foldl_append (pieces : List Piece) (s : ConnectionState) :
    (pieces.foldl ConnectionState.append s).tcpOpen = s.tcpOpen := by
  induction pieces generalizing s with
  | nil => rfl
  | cons piece pieces ih =>
    rw [List.foldl_cons, ih, ConnectionState.append]
    split <;> rfl

namespace HTTPConnection

variable {parseUrl : ParseUrl} {serve : Serve}

/-- Parsing input closes no socket. -/
theorem tcpOpen_appendData (call : Call) (m : HTTPConnection) :
    (appendData parseUrl (onNewRequest serve) call m).Holds fun n =>
      n.data.tcpOpen = m.data.tcpOpen := by
  refine appendData_holds (P := fun s : ConnectionState => s.tcpOpen = m.data.tcpOpen) ?_ call rfl
  intro k hk
  unfold onNewRequest
  split
  · trivial
  · trivial
  · exact (tcpOpen_foldl_append _ _).trans hk

theorem finishEffect_step (e : ConnectionEvent) (m : HTTPConnection) :
    (m.step parseUrl serve e).Holds fun n => FinishEffect m.data n.data := by
  have hclosed (data : ConnectionState) : data.tcpConnectionClose.finishCallback.tcpOpen = false :=
    rfl
  cases e with
  | read result =>
    cases result with
    | got call =>
      have hfinished := untouched_appendData parseUrl serve call m
      have hopen : (appendData parseUrl (onNewRequest serve) call m).Holds fun n =>
          n.data.tcpOpen = m.data.tcpOpen := tcpOpen_appendData call m
      simp only [step, onRead]
      cases hcall : appendData parseUrl (onNewRequest serve) call m with
      | ok n =>
        rw [hcall] at hfinished hopen
        exact .inl ⟨Untouched.finished hfinished, hopen⟩
      | failed n =>
        rw [hcall] at hfinished hopen
        exact .inr ⟨congrArg (· + 1) (Untouched.finished hfinished), fun h => hopen.symm.trans h⟩
      | undefined why => trivial
    | shutdown => exact .inl ⟨rfl, rfl⟩
    | wouldBlock => exact .inl ⟨rfl, rfl⟩
    | error => exact .inr ⟨rfl, id⟩
  | write shrunk result =>
    simp only [step, onWrite]
    split
    · trivial
    · split
      · exact .inl ⟨rfl, rfl⟩
      · split
        · exact .inr ⟨rfl, by simp [hclosed]⟩
        · exact .inl ⟨rfl, rfl⟩
  | close => exact .inr ⟨rfl, by simp [hclosed]⟩
  | append piece =>
    have huntouched := (untouched_append m.data piece).finished
    exact .inl ⟨huntouched, tcpOpen_foldl_append [piece] m.data⟩

end HTTPConnection

/-! ### What may happen to a connection -/

/-- A callback of the connection has been invoked and has not returned. -/
def CallbackRunning (trace : List (Moment × Happening)) (serial : Nat) : Prop :=
  trace.countP (fun e => e.2 = .returned serial) < trace.countP fun e => e.2 = .invoked serial

/-- Nothing happens to a connection that was destroyed. It is destroyed by a
collect, in the batch in which it was to finish, and with no callback running. -/
def MayHappen (trace : List (Moment × Happening)) (e : Moment × Happening) : Prop :=
  (∀ m, (m, .destroyed e.2.serial) ∉ trace) ∧
  (e.2 = .destroyed e.2.serial → e.1.collecting = true ∧
    (∃ m, (m, .finished e.2.serial) ∈ trace ∧ m.batch = e.1.batch) ∧
    ¬ CallbackRunning trace e.2.serial)

namespace HTTPServer

def destructions (s : HTTPServer) (serial : Nat) : List Moment :=
  s.trace.filterMap fun e => if e.2 = .destroyed serial then some e.1 else none

/-! ### The collector's list -/

/-- The list holds each connection that was to finish once, and no other. A
connection without a socket is one of them, and between two batches there is none. -/
structure Scheduled (s : HTTPServer) : Prop where
  pending : s.collector.pending = s.collector.collectEntriesList.map CollectEntry.data
  nodup : (s.collector.collectEntriesList.map CollectEntry.data).Nodup
  mem_iff : ∀ address, address ∈ s.collector.collectEntriesList.map CollectEntry.data ↔
    ∃ c, s.connections address = some c ∧ 0 < c.finished
  closed : ∀ address c, s.connections address = some c → c.isOpen = false → 0 < c.finished
  idle : s.phase = .waiting → s.collector.collectEntriesList = []

theorem Scheduled.congr {s next : HTTPServer} (h : s.Scheduled)
    (hcollector : next.collector = s.collector) (hconnections : next.connections = s.connections)
    (hphase : next.phase = .waiting → s.collector.collectEntriesList = []) : next.Scheduled where
  pending := hcollector ▸ h.pending
  nodup := hcollector ▸ h.nodup
  mem_iff := by
    rw [hcollector, hconnections]
    exact h.mem_iff
  closed := hconnections ▸ h.closed
  idle := hcollector ▸ hphase

/-- Scheduling an object puts it on the list unless it is there. -/
theorem scheduleFree_entries {c : Collector FreeFunc Nat}
    (hpending : c.pending = c.collectEntriesList.map CollectEntry.data)
    (hnodup : (c.collectEntriesList.map CollectEntry.data).Nodup) (freeFunc : FreeFunc)
    (data : Nat) :
    let next := (c.scheduleFree freeFunc data true).2
    next.pending = next.collectEntriesList.map CollectEntry.data ∧
    (next.collectEntriesList.map CollectEntry.data).Nodup ∧
    ∀ address, address ∈ next.collectEntriesList.map CollectEntry.data ↔
      address = data ∨ address ∈ c.collectEntriesList.map CollectEntry.data := by
  by_cases hdata : data ∈ c.collectEntriesList.map CollectEntry.data
  · simp only [Collector.scheduleFree_pending hpending freeFunc hdata]
    refine ⟨hpending, hnodup, fun address => ?_⟩
    exact ⟨.inr, fun h => h.elim (fun he => he ▸ hdata) id⟩
  · simp only [Collector.scheduleFree_new hpending freeFunc hdata, List.map_cons]
    exact ⟨by rw [hpending], List.nodup_cons.mpr ⟨hdata, hnodup⟩, fun address => List.mem_cons⟩

/-- A connection that is scheduled after a call of `finish_callback`. -/
theorem Scheduled.finish {s : HTTPServer} (h : s.Scheduled) {address : Nat}
    {c next : ServerConnection} (hc : s.connections address = some c)
    (heffect : FinishEffect c.http.data next.http.data) {after : HTTPServer}
    (hconnections : after.connections = Function.update s.connections address (some next))
    (hcollector : after.collector = if c.finished < next.finished then
      (s.collector.scheduleFree .httpConnectionDestroy address true).2 else s.collector)
    (hphase : after.phase ≠ .waiting) : after.Scheduled := by
  have hself : (∃ d, after.connections address = some d ∧ 0 < d.finished) ↔ 0 < next.finished := by
    simp [hconnections]
  have hother : ∀ other, other ≠ address → after.connections other = s.connections other :=
    fun other hne => by rw [hconnections, Function.update_of_ne hne]
  have hclosed : ∀ other d, after.connections other = some d → d.isOpen = false →
      0 < d.finished := by
    intro other d hd hshut
    rw [hconnections, update_eq_some] at hd
    rcases hd with ⟨-, hd⟩ | ⟨-, hd⟩
    · cases hd
      rcases heffect with ⟨hfinished, hopen⟩ | ⟨hfinished, -⟩
      · have hold := h.closed address c hc (hopen.symm.trans hshut)
        exact Nat.lt_of_lt_of_eq hold hfinished.symm
      · exact Nat.lt_of_lt_of_eq (Nat.succ_pos _) hfinished.symm
    · exact h.closed other d hd hshut
  rcases heffect with ⟨hfinished, -⟩ | ⟨hfinished, -⟩
  · have hsame : next.finished = c.finished := hfinished
    rw [hsame, if_neg (Nat.lt_irrefl _)] at hcollector
    refine ⟨hcollector ▸ h.pending, hcollector ▸ h.nodup, fun other => ?_, hclosed,
      fun hwaiting => absurd hwaiting hphase⟩
    rw [hcollector, h.mem_iff]
    by_cases hne : other = address
    · subst hne
      rw [hself, hsame]
      exact ⟨fun ⟨d, hd, hpos⟩ => by cases hc.symm.trans hd; exact hpos, fun hpos => ⟨c, hc, hpos⟩⟩
    · rw [hother other hne]
  · have hmore : next.finished = c.finished + 1 := hfinished
    rw [hmore, if_pos (Nat.lt_succ_self _)] at hcollector
    obtain ⟨hpending, hnodup, hmem⟩ := scheduleFree_entries h.pending h.nodup
      .httpConnectionDestroy address
    refine ⟨hcollector ▸ hpending, hcollector ▸ hnodup, fun other => ?_, hclosed,
      fun hwaiting => absurd hwaiting hphase⟩
    rw [hcollector, hmem, h.mem_iff]
    by_cases hne : other = address
    · subst hne
      rw [hself, hmore]
      simp
    · rw [hother other hne]
      simp [hne]

/-- A new connection is not to finish. -/
theorem Scheduled.accept {s : HTTPServer} (h : s.Scheduled) {address : Nat}
    (hfree : s.connections address = none) {c : ServerConnection} (hfinished : c.finished = 0)
    (hopen : c.isOpen = true) {after : HTTPServer}
    (hconnections : after.connections = Function.update s.connections address (some c))
    (hcollector : after.collector = s.collector) (hphase : after.phase = s.phase) :
    after.Scheduled where
  pending := hcollector ▸ h.pending
  nodup := hcollector ▸ h.nodup
  mem_iff := by
    intro other
    rw [hcollector, h.mem_iff, hconnections]
    by_cases hne : other = address
    · subst hne
      simp [hfree, hfinished]
    · rw [Function.update_of_ne hne]
  closed := by
    intro other d hd hshut
    rw [hconnections, update_eq_some] at hd
    rcases hd with ⟨-, hd⟩ | ⟨-, hd⟩
    · cases hd
      cases hopen.symm.trans hshut
    · exact h.closed other d hd hshut
  idle := by
    rw [hphase, hcollector]
    exact h.idle

/-- The first connection of the list is destroyed. -/
theorem Scheduled.destroy {s : HTTPServer} (h : s.Scheduled)
    {entry : CollectEntry FreeFunc Nat} {next : List (CollectEntry FreeFunc Nat)}
    (hlist : s.collector.collectEntriesList = entry :: next) {after : HTTPServer}
    (hconnections : after.connections = Function.update s.connections entry.data none)
    (hcollector : after.collector = s.collector.collectRound (fun _ _ => []) entry next)
    (hphase : after.phase ≠ .waiting) : after.Scheduled := by
  have hnext : after.collector.collectEntriesList = next := by
    rw [hcollector]
    rfl
  have hnodup := h.nodup
  rw [hlist, List.map_cons, List.nodup_cons] at hnodup
  refine ⟨?_, ?_, fun other => ?_, fun other d hd hshut => ?_, fun hw => absurd hw hphase⟩
  · have hpending : after.collector.pending = s.collector.pending.erase entry.data := by
      rw [hcollector]
      rfl
    rw [hpending, hnext, h.pending, hlist, List.map_cons, List.erase_cons_head]
  · rw [hnext]
    exact hnodup.2
  · rw [hnext, hconnections]
    by_cases hne : other = entry.data
    · subst hne
      simp [hnodup.1]
    · rw [Function.update_of_ne hne, ← h.mem_iff, hlist, List.map_cons, List.mem_cons]
      simp [hne]
  · rw [hconnections, update_eq_some] at hd
    rcases hd with ⟨-, hd⟩ | ⟨-, hd⟩
    · cases hd
    · exact h.closed other d hd hshut

/-! ### The record -/

/-- What the record says of the connections there are: they are told apart by
their serials, were not destroyed, and one that is to finish is so since this batch. -/
structure Recorded (s : HTTPServer) : Prop where
  serials : ∀ address c, s.connections address = some c → c.serial < s.accepted
  distinct : ∀ a b c d, s.connections a = some c → s.connections b = some d →
    c.serial = d.serial → a = b
  fresh : ∀ e ∈ s.trace, e.2.serial < s.accepted
  guarded : Guarded MayHappen s.trace
  alive : ∀ address c, s.connections address = some c → s.destructions c.serial = []
  finishes : ∀ address c, s.connections address = some c → 0 < c.finished →
    ∃ m, (m, .finished c.serial) ∈ s.trace ∧ m.batch = s.batch
  finished : ∀ m serial, (m, .finished serial) ∈ s.trace →
    (m.batch = s.batch ∧ ∃ address c, s.connections address = some c ∧ c.serial = serial ∧
      0 < c.finished) ∨ s.destructions serial = [⟨m.batch, true⟩]
  returned : ∀ serial, ¬ CallbackRunning s.trace serial

theorem mem_destructions {s : HTTPServer} {serial : Nat} {m : Moment} :
    m ∈ s.destructions serial ↔ (m, .destroyed serial) ∈ s.trace := by
  simp only [destructions, List.mem_filterMap, Option.ite_none_right_eq_some, Option.some.injEq]
  constructor
  · rintro ⟨e, he, hserial, rfl⟩
    rw [← hserial]
    exact he
  · intro hm
    exact ⟨_, hm, rfl, rfl⟩

theorem destructions_eq_nil {s : HTTPServer} {serial : Nat} :
    s.destructions serial = [] ↔ ∀ m, (m, .destroyed serial) ∉ s.trace := by
  rw [List.eq_nil_iff_forall_not_mem]
  exact forall_congr' fun m => not_congr mem_destructions

theorem destructions_congr {s next : HTTPServer} (htrace : next.trace = s.trace) :
    next.destructions = s.destructions := by
  funext serial
  rw [destructions, destructions, htrace]

theorem destructions_append {s next : HTTPServer} {es : List (Moment × Happening)}
    (htrace : next.trace = s.trace ++ es) (serial : Nat) :
    next.destructions serial = s.destructions serial ++
      es.filterMap fun e => if e.2 = .destroyed serial then some e.1 else none := by
  rw [destructions, htrace, List.filterMap_append]
  rfl

/-- Whatever happens to a connection that is there, but its destruction. -/
theorem guarded_alive {trace es : List (Moment × Happening)} {serial : Nat}
    (h : Guarded MayHappen trace) (halive : ∀ m, (m, .destroyed serial) ∉ trace)
    (hes : ∀ e ∈ es, e.2.serial = serial ∧ e.2 ≠ .destroyed serial) :
    Guarded MayHappen (trace ++ es) := by
  induction es using List.reverseRecOn with
  | nil => rwa [List.append_nil]
  | append_singleton es e ih =>
    have hfront : ∀ e ∈ es, e.2.serial = serial ∧ e.2 ≠ .destroyed serial :=
      fun e he => hes e (List.mem_append_left _ he)
    obtain ⟨hserial, hne⟩ := hes e (by simp)
    rw [← List.append_assoc]
    refine CallOutcome.guarded_concat (ih hfront) ⟨?_, ?_⟩
    · intro m hm
      rw [hserial] at hm
      rcases List.mem_append.mp hm with hold | hnew
      · exact halive m hold
      · exact (hfront _ hnew).2 rfl
    · intro hdestroyed
      rw [hserial] at hdestroyed
      exact absurd hdestroyed hne

/-- A new batch may begin when no connection is to finish. -/
theorem Recorded.congr {s next : HTTPServer} (h : s.Recorded)
    (hconnections : next.connections = s.connections) (haccepted : next.accepted = s.accepted)
    (htrace : next.trace = s.trace)
    (hbatch : next.batch = s.batch ∨
      ∀ address c, s.connections address = some c → ¬ 0 < c.finished) : next.Recorded := by
  have hdestructions := destructions_congr htrace
  constructor
  · rw [hconnections, haccepted]
    exact h.serials
  · rw [hconnections]
    exact h.distinct
  · rw [htrace, haccepted]
    exact h.fresh
  · rw [htrace]
    exact h.guarded
  · rw [hconnections, hdestructions]
    exact h.alive
  · rw [hconnections, htrace]
    intro address c hc hpos
    rcases hbatch with hbatch | hnone
    · rw [hbatch]
      exact h.finishes address c hc hpos
    · exact absurd hpos (hnone address c hc)
  · rw [hconnections, htrace, hdestructions]
    intro m serial hm
    rcases h.finished m serial hm with ⟨hmb, address, c, hc, hserial, hpos⟩ | hgone
    · rcases hbatch with hbatch | hnone
      · exact .inl ⟨hmb.trans hbatch.symm, address, c, hc, hserial, hpos⟩
      · exact absurd hpos (hnone address c hc)
    · exact .inr hgone
  · rw [htrace]
    exact h.returned

/-- What a callback leaves in the record. -/
def callbackTrace (m : Moment) (serial finishes : Nat) : List (Moment × Happening) :=
  (m, .invoked serial) :: (List.replicate finishes (m, .finished serial) ++ [(m, .returned serial)])

theorem mem_callbackTrace {m : Moment} {serial finishes : Nat} {e : Moment × Happening}
    (he : e ∈ callbackTrace m serial finishes) : e.1 = m ∧ e.2.serial = serial ∧
      e.2 ≠ .destroyed serial ∧ ∀ other, e.2 = .finished other → other = serial ∧ 0 < finishes := by
  rcases List.mem_cons.mp he with rfl | hrest
  · exact ⟨rfl, rfl, nofun, nofun⟩
  · rcases List.mem_append.mp hrest with hfinish | hreturn
    · obtain ⟨hpos, rfl⟩ := List.mem_replicate.mp hfinish
      refine ⟨rfl, rfl, nofun, ?_⟩
      rintro other ⟨⟩
      exact ⟨rfl, Nat.pos_of_ne_zero hpos⟩
    · cases List.mem_singleton.mp hreturn
      exact ⟨rfl, rfl, nofun, nofun⟩

/-- A callback that has returned does not run. -/
theorem callbackRunning_append {trace : List (Moment × Happening)} {m : Moment}
    {serial finishes other : Nat} :
    CallbackRunning (trace ++ callbackTrace m serial finishes) other ↔
      CallbackRunning trace other := by
  simp only [CallbackRunning, callbackTrace, List.countP_append, List.countP_cons,
    List.countP_replicate, List.countP_nil]
  by_cases hother : serial = other
  · simp [hother]
  · simp [hother]

theorem destructions_callback {s next : HTTPServer} {m : Moment} {serial finishes : Nat}
    (htrace : next.trace = s.trace ++ callbackTrace m serial finishes) :
    next.destructions = s.destructions := by
  funext other
  rw [destructions_append htrace, List.append_right_eq_self, List.filterMap_eq_nil_iff]
  intro e he
  obtain ⟨-, hserial, hne, -⟩ := mem_callbackTrace he
  rw [if_neg]
  intro heq
  rw [heq] at hserial hne
  exact hne (congrArg _ hserial)

theorem destructions_destroy {s next : HTTPServer} {m : Moment} {serial : Nat}
    (htrace : next.trace = s.trace ++ [(m, .destroyed serial)]) (other : Nat) :
    next.destructions other = s.destructions other ++ if serial = other then [m] else [] := by
  rw [destructions_append htrace]
  by_cases hother : serial = other
  · simp [hother]
  · simp [hother]

/-- A callback of a connection that is there. -/
theorem Recorded.callback {s : HTTPServer} (h : s.Recorded) {address : Nat}
    {c next : ServerConnection} (hc : s.connections address = some c)
    (hserial : next.serial = c.serial) (hmono : c.finished ≤ next.finished)
    {after : HTTPServer}
    (hconnections : after.connections = Function.update s.connections address (some next))
    (haccepted : after.accepted = s.accepted) (hbatch : after.batch = s.batch)
    (htrace : after.trace = s.trace ++
      callbackTrace s.moment c.serial (next.finished - c.finished)) : after.Recorded := by
  have hlookup : ∀ other d, after.connections other = some d →
      ∃ d', s.connections other = some d' ∧ d.serial = d'.serial ∧
        (d = d' ∨ other = address ∧ d = next) := by
    intro other d hd
    rw [hconnections, update_eq_some] at hd
    rcases hd with ⟨rfl, hd⟩ | ⟨-, hd⟩
    · cases hd
      exact ⟨c, hc, hserial, .inr ⟨rfl, rfl⟩⟩
    · exact ⟨d, hd, rfl, .inl rfl⟩
  have hdestructions := destructions_callback htrace
  constructor
  · intro other d hd
    obtain ⟨d', hd', hs, -⟩ := hlookup other d hd
    rw [haccepted, hs]
    exact h.serials other d' hd'
  · intro a b d e hd he heq
    obtain ⟨d', hd', hs, -⟩ := hlookup a d hd
    obtain ⟨e', he', hs', -⟩ := hlookup b e he
    exact h.distinct a b d' e' hd' he' (hs.symm.trans (heq.trans hs'))
  · intro e he
    rw [htrace] at he
    rw [haccepted]
    rcases List.mem_append.mp he with hold | hnew
    · exact h.fresh e hold
    · rw [(mem_callbackTrace hnew).2.1]
      exact h.serials address c hc
  · rw [htrace]
    refine guarded_alive h.guarded (destructions_eq_nil.mp (h.alive address c hc)) fun e he => ?_
    obtain ⟨-, hes, hne, -⟩ := mem_callbackTrace he
    exact ⟨hes, hne⟩
  · intro other d hd
    obtain ⟨d', hd', hs, -⟩ := hlookup other d hd
    rw [hdestructions, hs]
    exact h.alive other d' hd'
  · intro other d hd hpos
    obtain ⟨d', hd', hs, hsame⟩ := hlookup other d hd
    rw [hs, htrace, hbatch]
    by_cases hold : 0 < d'.finished
    · obtain ⟨m, hm, hmb⟩ := h.finishes other d' hd' hold
      exact ⟨m, List.mem_append_left _ hm, hmb⟩
    · rcases hsame with rfl | ⟨rfl, rfl⟩
      · exact absurd hpos hold
      · cases hc.symm.trans hd'
        refine ⟨s.moment, List.mem_append_right _ (List.mem_cons_of_mem _
          (List.mem_append_left _ ?_)), rfl⟩
        exact List.mem_replicate.mpr ⟨by omega, rfl⟩
  · intro m serial hm
    rw [htrace] at hm
    rw [hbatch, hdestructions]
    rcases List.mem_append.mp hm with hold | hnew
    · rcases h.finished m serial hold with ⟨hmb, other, d, hd, hds, hpos⟩ | hgone
      · refine .inl ⟨hmb, other, ?_⟩
        by_cases hne : other = address
        · subst hne
          cases hc.symm.trans hd
          exact ⟨next, by simp [hconnections], hserial.trans hds, by omega⟩
        · exact ⟨d, by rw [hconnections, Function.update_of_ne hne, hd], hds, hpos⟩
      · exact .inr hgone
    · obtain ⟨rfl, -, -, hfinish⟩ := mem_callbackTrace hnew
      obtain ⟨rfl, hpos⟩ := hfinish serial rfl
      exact .inl ⟨rfl, address, next, by simp [hconnections], hserial, by omega⟩
  · intro serial
    rw [htrace, callbackRunning_append]
    exact h.returned serial

/-- The destruction of a connection that is to finish. -/
theorem Recorded.destroy {s : HTTPServer} (h : s.Recorded) {address : Nat} {c : ServerConnection}
    (hc : s.connections address = some c) (hpos : 0 < c.finished) {after : HTTPServer}
    (hconnections : after.connections = Function.update s.connections address none)
    (haccepted : after.accepted = s.accepted) (hbatch : after.batch = s.batch)
    (htrace : after.trace = s.trace ++ [(⟨s.batch, true⟩, .destroyed c.serial)]) :
    after.Recorded := by
  have hlookup : ∀ other d, after.connections other = some d →
      s.connections other = some d ∧ other ≠ address := by
    intro other d hd
    rw [hconnections, update_eq_some] at hd
    rcases hd with ⟨-, hd⟩ | ⟨hne, hd⟩
    · cases hd
    · exact ⟨hd, hne⟩
  have hself : after.destructions c.serial = [⟨s.batch, true⟩] := by
    rw [destructions_destroy htrace, h.alive address c hc, if_pos rfl, List.nil_append]
  have hother : ∀ serial, serial ≠ c.serial →
      after.destructions serial = s.destructions serial := by
    intro serial hne
    rw [destructions_destroy htrace, if_neg (Ne.symm hne), List.append_nil]
  constructor
  · intro other d hd
    rw [haccepted]
    exact h.serials other d (hlookup other d hd).1
  · intro a b d e hd he heq
    exact h.distinct a b d e (hlookup a d hd).1 (hlookup b e he).1 heq
  · intro e he
    rw [htrace] at he
    rw [haccepted]
    rcases List.mem_append.mp he with hold | hnew
    · exact h.fresh e hold
    · rw [List.mem_singleton.mp hnew]
      exact h.serials address c hc
  · rw [htrace]
    exact CallOutcome.guarded_concat h.guarded
      ⟨destructions_eq_nil.mp (h.alive address c hc), fun _ =>
        ⟨rfl, h.finishes address c hc hpos, h.returned c.serial⟩⟩
  · intro other d hd
    obtain ⟨hold, hne⟩ := hlookup other d hd
    rw [hother d.serial fun heq => hne (h.distinct other address d c hold hc heq)]
    exact h.alive other d hold
  · intro other d hd hpos'
    obtain ⟨m, hm, hmb⟩ := h.finishes other d (hlookup other d hd).1 hpos'
    exact ⟨m, by rw [htrace]; exact List.mem_append_left _ hm, hmb.trans hbatch.symm⟩
  · intro m serial hm
    rw [htrace] at hm
    rcases List.mem_append.mp hm with hold | hnew
    · rcases h.finished m serial hold with ⟨hmb, other, d, hd, hds, hdpos⟩ | hgone
      · by_cases hne : other = address
        · subst hne
          cases hc.symm.trans hd
          exact .inr (by rw [← hds, hself, hmb])
        · exact .inl ⟨hmb.trans hbatch.symm, other, d,
            by rw [hconnections, Function.update_of_ne hne, hd], hds, hdpos⟩
      · have hne : serial ≠ c.serial := by
          rintro rfl
          rw [h.alive address c hc] at hgone
          cases hgone
        exact .inr ((hother serial hne).trans hgone)
    · cases List.mem_singleton.mp hnew
  · intro serial
    rw [htrace]
    simpa [CallbackRunning] using h.returned serial

/-- A connection that was accepted has the next serial. -/
theorem Recorded.accept {s : HTTPServer} (h : s.Recorded) {address : Nat}
    (hfree : s.connections address = none) {c : ServerConnection} (hserial : c.serial = s.accepted)
    (hfinished : c.finished = 0) {after : HTTPServer}
    (hconnections : after.connections = Function.update s.connections address (some c))
    (haccepted : after.accepted = s.accepted + 1) (hbatch : after.batch = s.batch)
    (htrace : after.trace = s.trace) : after.Recorded := by
  have hlookup : ∀ other d, after.connections other = some d →
      (other = address ∧ d = c) ∨ (other ≠ address ∧ s.connections other = some d) := by
    intro other d hd
    rw [hconnections, update_eq_some] at hd
    exact hd.imp_left fun ⟨hself, hd⟩ => ⟨hself, (Option.some.inj hd).symm⟩
  have hdestructions := destructions_congr htrace
  constructor
  · intro other d hd
    rw [haccepted]
    rcases hlookup other d hd with ⟨-, rfl⟩ | ⟨-, hold⟩
    · omega
    · exact Nat.lt_succ_of_lt (h.serials other d hold)
  · intro a b d e hd he heq
    rcases hlookup a d hd with ⟨rfl, rfl⟩ | ⟨-, hold⟩
    · rcases hlookup b e he with ⟨rfl, -⟩ | ⟨-, hold'⟩
      · rfl
      · have := h.serials b e hold'
        omega
    · rcases hlookup b e he with ⟨rfl, rfl⟩ | ⟨-, hold'⟩
      · have := h.serials a d hold
        omega
      · exact h.distinct a b d e hold hold' heq
  · intro e he
    rw [htrace] at he
    rw [haccepted]
    exact Nat.lt_succ_of_lt (h.fresh e he)
  · rw [htrace]
    exact h.guarded
  · intro other d hd
    rw [hdestructions]
    rcases hlookup other d hd with ⟨-, rfl⟩ | ⟨-, hold⟩
    · refine destructions_eq_nil.mpr fun m hm => ?_
      have hlt := h.fresh _ hm
      exact absurd hserial (Nat.ne_of_lt hlt)
    · exact h.alive other d hold
  · intro other d hd hpos
    rw [htrace, hbatch]
    rcases hlookup other d hd with ⟨-, rfl⟩ | ⟨-, hold⟩
    · omega
    · exact h.finishes other d hold hpos
  · intro m serial hm
    rw [htrace] at hm
    rw [hbatch, hdestructions]
    rcases h.finished m serial hm with ⟨hmb, other, d, hd, hds, hpos⟩ | hgone
    · have hne : other ≠ address := by
        rintro rfl
        cases hfree.symm.trans hd
      exact .inl ⟨hmb, other, d, by rw [hconnections, Function.update_of_ne hne, hd], hds, hpos⟩
    · exact .inr hgone
  · rw [htrace]
    exact h.returned

end HTTPServer

end Rapp

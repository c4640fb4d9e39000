import Rapp.ServerLedger

/-!
# What a batch brings about

A batch takes its tests one after the other, then the collect frees what is to
be freed, so it comes to its end after a number of steps that is known when it
begins. A connection whose peer has hung up is destroyed by then, whatever
else the batch holds, and a loop that was stopped ends with its batch.
-/
namespace Rapp

open CallOutcome (Outcome run)
open ByteBlock

namespace HTTPServer

variable {parseUrl : ParseUrl} {serverName : Bytes} {u : ServerSetup}

/-! ### The phases -/

/-- The entries on the collector's list. -/
def pendingFrees (s : HTTPServer) : Nat := s.collector.collectEntriesList.length

/-- How a step moves on in the batch. -/
inductive Turn (i : ServerInput) (s t : HTTPServer) : Prop where
  | wait (ready : List (Nat × EpollEvents)) (input : i = .wait ready)
    (before : s.phase = .waiting) (running : s.loop.running = true)
    (after : t.phase = .dispatching (s.loop.reported ready)) (batch : t.batch = s.batch + 1)
  | test (answers : TestAnswers) (next : Nat × ELoopWatchFdCallbackType)
    (tests : List (Nat × ELoopWatchFdCallbackType)) (input : i = .test answers)
    (before : s.phase = .dispatching (next :: tests)) (after : t.phase = .dispatching tests)
    (batch : t.batch = s.batch) (frees : t.pendingFrees ≤ s.pendingFrees + 1)
  | begin (input : i = .collect) (before : s.phase = .dispatching [])
    (after : t.phase = .collecting) (batch : t.batch = s.batch)
    (frees : t.pendingFrees = s.pendingFrees)
  | free (input : i = .collect) (before : s.phase = .collecting) (after : t.phase = .collecting)
    (batch : t.batch = s.batch) (frees : t.pendingFrees + 1 = s.pendingFrees)
  | done (input : i = .collect) (before : s.phase = .collecting) (after : t.phase = .waiting)
    (batch : t.batch = s.batch) (empty : s.collector.collectEntriesList = [])

theorem pendingFrees_onRequestFinish (pointer : ConnectionPointer) (s : HTTPServer) :
    (s.onRequestFinish pointer).pendingFrees ≤ s.pendingFrees + 1 := by
  have hnote : (s.collector.note .httpConnectionDestroy pointer.address).collectEntriesList =
      s.collector.collectEntriesList := by
    unfold Collector.note
    split <;> rfl
  simp only [onRequestFinish, pendingFrees, Collector.scheduleFree, note]
  split
  · rw [hnote]
    exact Nat.le_succ _
  · simp

/-- A callback finishes its connection once at most. -/
theorem afterCallback_turn {s : HTTPServer} {address : Nat} {c : ServerConnection}
    {http : HTTPConnection} (heffect : FinishEffect c.http.data http.data) :
    (s.afterCallback address c http).phase = s.phase ∧
      (s.afterCallback address c http).batch = s.batch ∧
      (s.afterCallback address c http).pendingFrees ≤ s.pendingFrees + 1 := by
  rw [afterCallback_eq]
  let changed := s.withConnection address c (some { c with http := http })
  obtain ⟨hsame, -⟩ := iterate_onRequestFinish ⟨address, c.serial⟩
    (http.data.finished - c.finished) changed
  have hphase : changed.phase = s.phase := withConnection_phase _ _ _ _
  have hbatch : changed.batch = s.batch := withConnection_batch _ _ _ _
  have hfrees : changed.pendingFrees = s.pendingFrees := by
    rw [pendingFrees, withConnection_collector, pendingFrees]
  refine ⟨hsame.phase.trans hphase, hsame.batch.trans hbatch, ?_⟩
  rcases heffect with ⟨hfinished, -⟩ | ⟨hfinished, -⟩
  · have hcount : http.data.finished - c.finished = 0 :=
      Nat.sub_eq_zero_of_le (Nat.le_of_eq hfinished)
    rw [hcount, Function.iterate_zero, id_eq, hfrees]
    exact Nat.le_succ _
  · have hcount : http.data.finished - c.finished = 1 := Nat.sub_eq_of_eq_add' hfinished
    rw [hcount, Function.iterate_one, ← hfrees]
    exact pendingFrees_onRequestFinish _ _

theorem invoke_turn {s t : HTTPServer} {callback : ServerCallback}
    {type : ELoopWatchFdCallbackType} {answers : TestAnswers}
    (h : s.invoke parseUrl serverName callback type answers = .ok t) :
    t.phase = s.phase ∧ t.batch = s.batch ∧ t.pendingFrees ≤ s.pendingFrees + 1 := by
  cases callback with
  | onIncomingConnection =>
    simp only [HTTPServer.invoke, HTTPServer.onIncomingConnection, Outcome.ok.injEq] at h
    subst h
    cases answers.accepted with
    | none => exact ⟨rfl, rfl, Nat.le_succ _⟩
    | some answer =>
      simp only
      split <;> exact ⟨rfl, rfl, Nat.le_succ _⟩
  | onSignal =>
    simp only [HTTPServer.invoke, HTTPServer.onSignal, Outcome.ok.injEq] at h
    subst h
    split <;> exact ⟨rfl, rfl, Nat.le_succ _⟩
  | onReady pointer =>
    simp only [HTTPServer.invoke, HTTPServer.onReady] at h
    split at h
    · cases h
    · rename_i c hc
      have heffect : (c.http.step parseUrl answers.serve (answers.event type)).Holds fun n =>
          FinishEffect c.http.data n.data := HTTPConnection.finishEffect_step _ _
      cases hstep : c.http.step parseUrl answers.serve (answers.event type) with
      | ok http =>
        simp only [hstep, Outcome.ok.injEq] at h
        subst h
        exact afterCallback_turn (s := s.note (.invoked pointer.serial)) (heffect.ok hstep)
      | failed http => exact absurd hstep (HTTPConnection.step_ne_failed _ _ _ _ _)
      | undefined why =>
        simp only [hstep] at h
        cases h

theorem collectRound_turn {s t : HTTPServer} (hphase : s.phase = .collecting)
    (h : s.collectRound = .ok t) : Turn .collect s t := by
  rw [HTTPServer.collectRound] at h
  split at h
  · rename_i hlist
    cases h
    exact .done rfl hphase rfl rfl hlist
  · rename_i entry next hlist
    obtain ⟨gone, hgone, rfl⟩ := Outcome.map_eq_ok.mp h
    have hkept : gone.phase = s.phase ∧ gone.batch = s.batch := by
      unfold HTTPServer.httpConnectionDestroy at hgone
      split at hgone
      · cases hgone
      · simp only [Outcome.ok.injEq] at hgone
        subst hgone
        constructor
        all_goals
          simp only
          split <;> rfl
    refine .free rfl hphase (hkept.1.trans hphase) hkept.2 ?_
    simp [pendingFrees, hlist, Collector.collectRound, Collector.release]

/-- The step lemma. -/
theorem step_turn {s t : HTTPServer} {i : ServerInput}
    (h : s.step parseUrl serverName i = .ok t) : Turn i s t := by
  unfold HTTPServer.step at h
  split at h
  · rename_i ready hphase
    split at h
    · rename_i hrunning
      cases h
      exact .wait ready rfl hphase hrunning rfl rfl
    · cases h
  · rename_i answers next tests hphase
    unfold HTTPServer.test at h
    split at h
    · cases h
    · cases h
      exact .test answers next tests rfl hphase rfl rfl (Nat.le_succ _)
    · obtain ⟨hafter, hbatch, hfrees⟩ := invoke_turn h
      exact .test answers next tests rfl hphase hafter hbatch hfrees
  · rename_i hphase
    cases h
    exact .begin rfl hphase rfl rfl rfl
  · rename_i hphase
    exact collectRound_turn hphase h
  · cases h

/-! ### A batch ends -/

/-- The steps a batch has still to go, at most: a test may put an entry on the list. -/
def work (s : HTTPServer) : Nat :=
  match s.phase with
  | .waiting => 0
  | .dispatching tests => 2 * tests.length + s.pendingFrees + 2
  | .collecting => s.pendingFrees + 1

theorem Turn.work_lt {s t : HTTPServer} {i : ServerInput} (h : Turn i s t)
    (hstopped : s.loop.running = false) : t.work < s.work ∧ t.batch = s.batch := by
  cases h with
  | wait ready input before running after batch => cases hstopped.symm.trans running
  | test answers next tests input before after batch frees =>
    refine ⟨?_, batch⟩
    simp only [work, before, after, List.length_cons]
    omega
  | begin input before after batch frees =>
    refine ⟨?_, batch⟩
    simp only [work, before, after, List.length_nil]
    omega
  | free input before after batch frees =>
    refine ⟨?_, batch⟩
    simp only [work, before, after]
    omega
  | done input before after batch empty =>
    refine ⟨?_, batch⟩
    simp only [work, before, after]
    omega

/-- A loop that was stopped: whatever comes next is of its batch, is soon over,
and leaves the loop stopped; at the end nothing more can come. -/
theorem stopped_returns (parseUrl : ParseUrl) (serverName : Bytes) (u : ServerSetup)
    {is : List ServerInput} {s : HTTPServer}
    (hs : run (step parseUrl serverName) is u.start = .ok s) (hstopped : s.loop.running = false)
    {js : List ServerInput} {t : HTTPServer} (ht : run (step parseUrl serverName) js s = .ok t) :
    js.length + t.work ≤ s.work ∧ t.batch = s.batch ∧ t.loop.running = false ∧
      (t.phase = .waiting → ∀ i next, t.step parseUrl serverName i ≠ .ok next) := by
  have hstep : ∀ (i : ServerInput) (t next : HTTPServer),
      t.Kept ∧ t.loop.running = false ∧ t.batch = s.batch →
      t.step parseUrl serverName i = .ok next →
      (next.Kept ∧ next.loop.running = false ∧ next.batch = s.batch) ∧ next.work < t.work := by
    rintro i t next ⟨hkept, hrunning, hbatch⟩ hnext
    have hproceeds := hkept.step parseUrl serverName i
    rw [hnext] at hproceeds
    obtain ⟨hwork, hsame⟩ := (step_turn hnext).work_lt hrunning
    have hspared : t.Spares next := by
      cases hkept.change hnext <;> assumption
    refine ⟨⟨hproceeds, ?_, hsame.trans hbatch⟩, hwork⟩
    by_contra hnot
    have hback := hspared.running (by simpa using hnot)
    cases hrunning.symm.trans hback
  have hstart : s.Kept ∧ s.loop.running = false ∧ s.batch = s.batch :=
    ⟨kept_run hs, hstopped, rfl⟩
  have hafter : t.Kept ∧ t.loop.running = false ∧ t.batch = s.batch :=
    CallOutcome.run_history (step parseUrl serverName)
      (I := fun _ t => t.Kept ∧ t.loop.running = false ∧ t.batch = s.batch) hstart
      (fun _ i t next h hnext => (hstep i t next h hnext).1) ht
  refine ⟨CallOutcome.run_length_le (step parseUrl serverName) hstart hstep ht, hafter.2.2,
    hafter.2.1, fun hphase i next hnext => ?_⟩
  have hless := ((step_turn hnext).work_lt hafter.2.1).1
  simp [work, hphase] at hless

/-- The second client hangs up, a signal arrives, and the first has something to say. -/
def stopBatch : List ServerInput :=
  [.wait [(6, ⟨false, false, true⟩), (3, ⟨true, false, false⟩), (5, ⟨true, false, false⟩)],
    .test (clientAnswers 6), .test { clientAnswers 5 with stops := true }]

/-- What is left of the batch behind the signal. -/
def stopRest : List ServerInput := [.test (clientAnswers 5), .collect, .collect, .collect]

theorem run_stopBatch : ∃ s t,
    run (step parsePath (ascii "rapp")) (twoClients ++ stopBatch) clientSetup.start = .ok s ∧
      s.loop.running = false ∧ s.phase = .dispatching [(305, .read)] ∧ s.pendingFrees = 1 ∧
      run (step parsePath (ascii "rapp")) stopRest s = .ok t ∧ t.phase = .waiting ∧
      (t.connections 1005).map (fun c => (c.fd, c.isOpen)) = some (5, true) ∧
      t.connections 1006 = none := by
  have hstop : ∃ s, run (step parsePath (ascii "rapp")) (twoClients ++ stopBatch)
      clientSetup.start = .ok s ∧
        (s.loop.running, s.phase, s.pendingFrees) = (false, .dispatching [(305, .read)], 1) :=
    Outcome.exists_of_toOption (by decide +kernel)
  have hrun : ∃ t, run (step parsePath (ascii "rapp")) (twoClients ++ stopBatch ++ stopRest)
      clientSetup.start = .ok t ∧
        (t.phase, (t.connections 1005).map (fun c => (c.fd, c.isOpen)),
          (t.connections 1006).isNone) = (.waiting, some (5, true), true) :=
    Outcome.exists_of_toOption (by decide +kernel)
  obtain ⟨s, hs, hstopped⟩ := hstop
  obtain ⟨t, ht, hleft⟩ := hrun
  rw [CallOutcome.run_append, hs, Outcome.bind_ok] at ht
  simp only [Prod.mk.injEq, Option.isNone_iff_eq_none] at hstopped hleft
  obtain ⟨hrunning, hphase, hfrees⟩ := hstopped
  obtain ⟨hwaiting, hopen, hgone⟩ := hleft
  exact ⟨s, t, hs, hrunning, hphase, hfrees, ht, hwaiting, hopen, hgone⟩

/-- A test and a free are left when the loop is stopped. -/
theorem stopped_returns_stopBatch : ∃ s t,
    run (step parsePath (ascii "rapp")) (twoClients ++ stopBatch) clientSetup.start = .ok s ∧
      s.phase = .dispatching [(305, .read)] ∧ s.pendingFrees = 1 ∧
      run (step parsePath (ascii "rapp")) stopRest s = .ok t ∧ t.phase = .waiting ∧
      stopRest.length + t.work ≤ s.work ∧ t.batch = s.batch ∧ t.loop.running = false ∧
      (t.phase = .waiting → ∀ i next, t.step parsePath (ascii "rapp") i ≠ .ok next) := by
  obtain ⟨s, t, hs, hstopped, hphase, hfrees, ht, hwaiting, -⟩ := run_stopBatch
  exact ⟨s, t, hs, hphase, hfrees, ht, hwaiting,
    stopped_returns parsePath (ascii "rapp") clientSetup hs hstopped ht⟩

/-! ### A peer that hangs up -/

/-- The record of the watches of an open connection, as the kernel reports it. -/
theorem Kept.reported_of_open {s : HTTPServer} (h : s.Kept) {address : Nat} {c : ServerConnection}
    (hc : s.connections address = some c) (hopen : c.isOpen = true)
    {ready : List (Nat × EpollEvents)} {events : EpollEvents}
    (hready : (c.fd, events) ∈ ready.take maxEvents) (hclose : events.epollrdhup = true) :
    ∃ registration, (c.fd, registration) ∈ s.loop.entries ∧
      (registration.address, .close) ∈ s.loop.reported ready := by
  obtain ⟨map, hregistered⟩ := h.registered
  have hmap : map c.fd .close = some (.onReady ⟨address, c.serial⟩) :=
    (hregistered.open_iff _ _ _).mpr ⟨c, hc, rfl, hopen, rfl⟩
  have hnode := hregistered.watches.holds.nodes c.fd
  cases hfind : s.loop.findCallbackByFd c.fd with
  | none =>
    rw [hfind] at hnode
    exact absurd ((hnode.2 .close).symm.trans hmap) (by simp)
  | some ec =>
    rw [hfind] at hnode
    obtain ⟨hinterest, -, -, hevents⟩ := hnode
    have hbit : ec.events.epollrdhup = true := (hevents .close).trans (by rw [hmap]; rfl)
    refine ⟨ec.registration, ELoop.mem_entries_of_find hfind, ?_⟩
    refine List.mem_flatMap.mpr
      ⟨⟨ec.registration, ec.events.meet events, fun _ => []⟩, ?_, ?_⟩
    · refine List.mem_filterMap.mpr ⟨⟨c.fd, events, fun _ => []⟩, ?_, ?_⟩
      · rw [← List.map_take]
        exact List.mem_map_of_mem hready
      · simp only [hinterest, Option.map_some]
        rfl
    · refine List.mem_map.mpr ⟨.close, List.mem_filter.mpr ⟨by simp, ?_⟩, rfl⟩
      simp [EpollEvents.has, EpollEvents.meet, hbit, hclose]

/-- A test of that record calls back the connection. -/
theorem Kept.dispatched_of_open {s : HTTPServer} (h : s.Kept) {address : Nat}
    {c : ServerConnection} (hc : s.connections address = some c) (hopen : c.isOpen = true)
    {registration : Registration} (hentry : (c.fd, registration) ∈ s.loop.entries)
    {type : ELoopWatchFdCallbackType} {tests : List (Nat × ELoopWatchFdCallbackType)}
    (hphase : s.phase = .dispatching ((registration.address, type) :: tests))
    (answers : TestAnswers) :
    s.dispatched (.test answers) = some (c.serial, answers.serve, answers.event type) := by
  obtain ⟨map, hregistered⟩ := h.registered
  obtain ⟨ec, hec, he⟩ := List.mem_map.mp hentry
  obtain ⟨hfd, rfl⟩ := Prod.mk.inj he
  have hload : s.loop.load ec.registration.address = some ec := by
    obtain ⟨found, hfound, hsame⟩ :=
      (ELoop.live_iff hregistered.watches.holds.sound _).mpr ⟨c.fd, hentry⟩
    have haddress := congrArg Registration.address hsame
    rw [hregistered.watches.holds.sound.eq_of_address (List.mem_of_find?_eq_some hfound) hec
      haddress] at hfound
    exact hfound
  have hcallback : ec.callbacks type = some (.onReady ⟨address, c.serial⟩) := by
    rw [(ELoop.Represents.of_holds hregistered.watches.holds).callbacks_eq ec hec, hfd]
    exact (hregistered.open_iff _ _ _).mpr ⟨c, hc, rfl, hopen, rfl⟩
  simp [dispatched, hphase, callbackAt, hload, hcallback]

/-- What a step leaves of a connection: it is as before, or after a callback of its
own, or it was destroyed. -/
theorem Kept.connection_after {s t : HTTPServer} (h : s.Kept) {i : ServerInput}
    (hchange : Change parseUrl serverName i s t) {address : Nat} {c : ServerConnection}
    (hc : s.connections address = some c) :
    (t.connections address = some c ∧ ∀ delivery, s.dispatched i ≠ some (c.serial, delivery)) ∨
    (∃ delivery http, s.dispatched i = some (c.serial, delivery) ∧
      c.http.step parseUrl delivery.1 delivery.2 = .ok http ∧
      t.connections address = some { c with http := http }) ∨
    t.destructions c.serial = [⟨s.batch, true⟩] := by
  cases hchange with
  | nothing label connections accepted descriptors destructions spared =>
    exact .inl ⟨connections ▸ hc, by simp [label]⟩
  | accept answer label accepts connections accepted descriptors destructions spared =>
    have hne : address ≠ answer.connection := by
      rintro rfl
      cases accepts.2.1.symm.trans hc
    exact .inl ⟨by rw [connections, Function.update_of_ne hne, hc], by simp [label]⟩
  | callback other d http delivery label found called connections accepted descriptors
      destructions spared =>
    by_cases hother : address = other
    · subst hother
      cases found.symm.trans hc
      exact .inr (.inl ⟨delivery, http, label, called, by rw [connections, Function.update_self]⟩)
    · refine .inl ⟨by rw [connections, Function.update_of_ne hother, hc], fun event hevent => ?_⟩
      obtain ⟨hserial, -⟩ := Prod.mk.inj (Option.some.inj (label.symm.trans hevent))
      exact hother (h.recorded.distinct address other c d hc found hserial.symm)
  | destroy other d label found connections accepted descriptors destructions spared =>
    by_cases hother : address = other
    · subst hother
      cases found.symm.trans hc
      refine .inr (.inr ?_)
      rw [destructions, h.recorded.alive address c hc, if_pos rfl, List.nil_append]
    · exact .inl ⟨by rw [connections, Function.update_of_ne hother, hc], by simp [label]⟩

/-- A connection whose peer hung up: destroyed in this batch, or to finish in it, or
its `on_close` is still to be called. -/
def HangingUp (batch serial address fd : Nat) (registration : Registration) (s : HTTPServer) :
    Prop :=
  s.destructions serial = [⟨batch, true⟩] ∨
  (s.batch = batch ∧ s.phase ≠ .waiting ∧ ∃ c, s.connections address = some c ∧
    c.serial = serial ∧ (0 < c.finished ∨
      (c.isOpen = true ∧ c.fd = fd ∧ (fd, registration) ∈ s.loop.entries ∧
        ∃ tests, s.phase = .dispatching tests ∧ (registration.address, .close) ∈ tests)))

/-- A connection that stays is to finish, or is as open as before and was not told
that its peer has closed. -/
theorem Kept.connection_stays {s t : HTTPServer} (h : s.Kept) {i : ServerInput}
    (hchange : Change parseUrl serverName i s t) {address : Nat} {c : ServerConnection}
    (hc : s.connections address = some c) :
    (∃ c', t.connections address = some c' ∧ c'.serial = c.serial ∧ c'.fd = c.fd ∧
      (0 < c'.finished ∨ (c.finished = 0 ∧ c'.isOpen = c.isOpen ∧
        ∀ serve, s.dispatched i ≠ some (c.serial, serve, .close)))) ∨
    t.destructions c.serial = [⟨s.batch, true⟩] := by
  rcases h.connection_after hchange hc with ⟨hsame, hlabel⟩ |
    ⟨delivery, http, hlabel, hcalled, hnext⟩ | hgone
  · refine .inl ⟨c, hsame, rfl, rfl, ?_⟩
    rcases Nat.eq_zero_or_pos c.finished with hzero | hpos
    · exact .inr ⟨hzero, rfl, fun serve => hlabel (serve, .close)⟩
    · exact .inl hpos
  · refine .inl ⟨{ c with http := http }, hnext, rfl, rfl, ?_⟩
    have hfinished : ∀ serve, delivery = (serve, .close) →
        http.data.finished = c.http.data.finished + 1 := by
      rintro serve rfl
      cases hcalled
      rfl
    rcases (HTTPConnection.finishEffect_step delivery.2 c.http).ok hcalled with
      ⟨hsame, hopen⟩ | ⟨hmore, -⟩
    · rcases Nat.eq_zero_or_pos c.finished with hzero | hpos
      · refine .inr ⟨hzero, hopen, fun serve hclose => ?_⟩
        have hdelivery := (Prod.mk.inj (Option.some.inj (hlabel.symm.trans hclose))).2
        have hnext := hfinished serve hdelivery
        omega
      · exact .inl (Nat.lt_of_lt_of_eq hpos hsame.symm)
    · exact .inl (Nat.lt_of_lt_of_eq (Nat.succ_pos _) hmore.symm)
  · exact .inr hgone

/-- What was destroyed is not destroyed again. -/
theorem Kept.destructions_stay {s t : HTTPServer} (h : s.Kept) {i : ServerInput}
    (hchange : Change parseUrl serverName i s t) {serial : Nat}
    (hgone : s.destructions serial ≠ []) : t.destructions serial = s.destructions serial := by
  cases hchange with
  | nothing label connections accepted descriptors destructions spared => rw [destructions]
  | accept answer label accepts connections accepted descriptors destructions spared =>
    rw [destructions]
  | callback address c http delivery label found called connections accepted descriptors
      destructions spared => rw [destructions]
  | destroy address c label found connections accepted descriptors destructions spared =>
    have hne : c.serial ≠ serial := by
      rintro rfl
      exact hgone (h.recorded.alive address c found)
    rw [destructions, if_neg hne, List.append_nil]

/-- The step lemma: a test that is not its own leaves it waiting for its own. -/
theorem HangingUp.step {batch serial address fd : Nat} {registration : Registration}
    {s t : HTTPServer} (h : s.HangingUp batch serial address fd registration) (hkept : s.Kept)
    (hledgered : t.Ledgered u) {i : ServerInput} (ht : s.step parseUrl serverName i = .ok t) :
    t.HangingUp batch serial address fd registration := by
  have hchange := hkept.change ht
  rcases h with hgone | ⟨hbatch, hphase, c, hc, rfl, hstate⟩
  · refine .inl ?_
    rw [hkept.destructions_stay hchange (by simp [hgone]), hgone]
  · rcases hkept.connection_stays hchange hc with ⟨c', hc', hserial, hfd, hstate'⟩ | hgone
    · cases step_turn ht with
      | wait ready input before running after batch => exact absurd before hphase
      | test answers next tests input before after batch frees =>
        refine .inr ⟨batch.trans hbatch, by simp [after], c', hc', hserial, ?_⟩
        rcases hstate' with hpos | ⟨hzero, hopen', hother⟩
        · exact .inl hpos
        · rcases hstate with hpos | ⟨hopen, rfl, hentry, tests', htests, hmem⟩
          · omega
          · rw [before, LoopPhase.dispatching.injEq] at htests
            subst htests
            subst input
            have hnot : next ≠ (registration.address, .close) := by
              rintro rfl
              exact hother answers.serve (hkept.dispatched_of_open hc hopen hentry before answers)
            have hrest := List.mem_of_ne_of_mem (Ne.symm hnot) hmem
            have hsocket : c.fd ∈ t.descriptors := (hledgered.mem_iff c.fd).mpr
              (.inr (.inr ⟨address, c', hc', hopen'.trans hopen, hfd⟩))
            have hspared : s.Spares t := by
              cases hchange <;> assumption
            refine .inr ⟨hopen'.trans hopen, hfd, ?_, tests, after, hrest⟩
            exact (hspared.entries _ hentry).resolve_right fun hnone => hnone hsocket
      | begin input before after batch frees =>
        refine .inr ⟨batch.trans hbatch, by simp [after], c', hc', hserial, ?_⟩
        rcases hstate' with hpos | ⟨hzero, -, -⟩
        · exact .inl hpos
        · rcases hstate with hpos | ⟨-, -, -, tests, htests, hmem⟩
          · omega
          · rw [before, LoopPhase.dispatching.injEq] at htests
            simp [← htests] at hmem
      | free input before after batch frees =>
        refine .inr ⟨batch.trans hbatch, by simp [after], c', hc', hserial, ?_⟩
        rcases hstate' with hpos | ⟨hzero, -, -⟩
        · exact .inl hpos
        · rcases hstate with hpos | ⟨-, -, -, tests, htests, -⟩
          · omega
          · cases before.symm.trans htests
      | done input before after batch empty =>
        rcases hstate with hpos | ⟨-, -, -, tests, htests, -⟩
        · have hlisted := (hkept.scheduled.mem_iff address).mpr ⟨c, hc, hpos⟩
          simp [empty] at hlisted
        · cases before.symm.trans htests
    · exact .inl (hbatch ▸ hgone)

/-- A connection whose peer has closed, as `epoll_wait` reports it, is destroyed by
the collect of that batch, whatever other events and connections the batch holds. -/
theorem hangup_destroyed (parseUrl : ParseUrl) (serverName : Bytes) (u : ServerSetup)
    {is : List ServerInput} {s : HTTPServer}
    (hs : run (step parseUrl serverName) is u.start = .ok s) {address : Nat}
    {c : ServerConnection} (hc : s.connections address = some c)
    {ready : List (Nat × EpollEvents)} {events : EpollEvents}
    (hready : (c.fd, events) ∈ ready.take maxEvents) (hclose : events.epollrdhup = true)
    {js : List ServerInput} {t : HTTPServer}
    (ht : run (step parseUrl serverName) (.wait ready :: js) s = .ok t)
    (hphase : t.phase = .waiting) : t.destructions c.serial = [⟨s.batch + 1, true⟩] := by
  obtain ⟨next, hnext, hrest⟩ := Outcome.bind_eq_ok.mp ht
  obtain ⟨hkept, hledgered⟩ := ledgered_run hs
  have hstep : ∀ (i : ServerInput) (t next : HTTPServer), t.Kept ∧ t.Ledgered u →
      t.step parseUrl serverName i = .ok next → next.Kept ∧ next.Ledgered u := by
    intro i t next h hnext
    have hproceeds := h.1.step parseUrl serverName i
    rw [hnext] at hproceeds
    exact ⟨hproceeds, h.2.change h.1 (h.1.change hnext)⟩
  have hwaiting : s.phase = .waiting := by
    cases step_turn hnext with
    | wait ready input before running after batch => exact before
    | test answers next tests input => cases input
    | begin input => cases input
    | free input => cases input
    | done input => cases input
  have hopen := (hkept.open_of_waiting hwaiting hc).2
  obtain ⟨registration, hentry, hmem⟩ := hkept.reported_of_open hc hopen hready hclose
  have hstart : next.HangingUp (s.batch + 1) c.serial address c.fd registration := by
    simp only [HTTPServer.step, hwaiting] at hnext
    split at hnext
    · cases hnext
      exact .inr ⟨rfl, by simp, c, hc, rfl, .inr ⟨hopen, rfl, hentry, _, rfl, hmem⟩⟩
    · cases hnext
  have hend : (t.Kept ∧ t.Ledgered u) ∧
      t.HangingUp (s.batch + 1) c.serial address c.fd registration := by
    refine CallOutcome.run_history (step parseUrl serverName) (I := fun _ t =>
      (Kept t ∧ t.Ledgered u) ∧ t.HangingUp (s.batch + 1) c.serial address c.fd registration)
      ⟨hstep _ _ _ ⟨hkept, hledgered⟩ hnext, hstart⟩ ?_ hrest
    intro _ i t next h hnext
    have hafter := hstep i t next h.1 hnext
    exact ⟨hafter, h.2.step h.1.1 hafter.2 hnext⟩
  rcases hend.2 with hgone | ⟨-, hnot, -⟩
  · exact hgone
  · exact absurd hphase hnot

/-- The first client hangs up; the second has its page and is closed in the same batch. -/
theorem hangup_destroyed_first : ∃ s c t,
    run (step parsePath (ascii "rapp")) twoClients clientSetup.start = .ok s ∧
      s.connections 1005 = some c ∧
      run (step parsePath (ascii "rapp")) (clientBatch [(5, ⟨true, true, true⟩),
        (6, ⟨false, true, false⟩)] [5, 5, 5, 6] ++ [.collect, .collect]) s = .ok t ∧
      t.destructions c.serial = [⟨s.batch + 1, true⟩] := by
  have hrun : ∃ t, run (step parsePath (ascii "rapp")) (twoClients ++ (clientBatch
      [(5, ⟨true, true, true⟩), (6, ⟨false, true, false⟩)] [5, 5, 5, 6] ++ [.collect, .collect]))
      clientSetup.start = .ok t ∧ t.phase = .waiting :=
    Outcome.exists_of_toOption (by decide +kernel)
  obtain ⟨t, ht, hphase⟩ := hrun
  obtain ⟨s, hs, hmap, -⟩ := run_twoClients
  obtain ⟨c, hc, hfd⟩ := Option.map_eq_some_iff.mp hmap
  rw [CallOutcome.run_append, hs, Outcome.bind_ok] at ht
  have hready : (c.fd, (⟨true, true, true⟩ : EpollEvents)) ∈ List.take maxEvents
      [(5, (⟨true, true, true⟩ : EpollEvents)), (6, ⟨false, true, false⟩)] := by
    rw [hfd]
    exact List.mem_cons_self
  exact ⟨s, c, t, hs, hc, ht, hangup_destroyed parsePath (ascii "rapp") clientSetup hs hc hready rfl
    ht hphase⟩

end HTTPServer

end Rapp

import Rapp.DestructionRecord

/-!
# Deferred destruction

A connection that is to finish is put on the collector's list and destroyed
when the events of its batch have been dispatched: once, with no callback of it
running, and never to be watched or invoked again.
-/
namespace Rapp

open CallOutcome (Outcome run run_history Guarded Always)
open ByteBlock

namespace HTTPServer

/-- The collect of the batch has returned. -/
def Collected (s : HTTPServer) (batch : Nat) : Prop :=
  batch < s.batch ∨ batch = s.batch ∧ s.phase = .waiting

/-- Every connection that was to finish is destroyed once, by the collect of its
batch; nothing else happens to it then, no watch of it is left, and no freed
connection or record is used by whatever comes next. -/
structure DefersDestruction (parseUrl : ParseUrl) (serverName : Bytes) (s : HTTPServer) :
    Prop where
  trace : Guarded MayHappen s.trace
  once : ∀ m serial, (m, .finished serial) ∈ s.trace → s.Collected m.batch →
    s.destructions serial = [⟨m.batch, true⟩]
  unwatched : ∀ serial, s.destructions serial ≠ [] → ∀ ec ∈ s.loop.callbacksList,
    ∀ type address, ec.callbacks type ≠ some (.onReady ⟨address, serial⟩)
  collects : s.phase = .collecting → ∃ n t,
    run (step parseUrl serverName) (List.replicate n .collect) s = .ok t ∧
    t.Collected s.batch
  valid : ∀ i address, s.step parseUrl serverName i ≠ .undefined (.freedConnection address) ∧
    s.step parseUrl serverName i ≠ .undefined (.freedRecord address)

/-! ### The invariant -/

/-- What every step of the server keeps. -/
structure Kept (s : HTTPServer) : Prop where
  registered : ∃ map, s.Registered map
  scheduled : s.Scheduled
  recorded : s.Recorded

/-- A step that keeps it, or goes on from no freed memory. -/
def Proceeds : Outcome ServerFault HTTPServer → Prop
  | .ok s => s.Kept
  | .failed _ => True
  | .undefined why => ∃ fault, why = .connection fault

/-- All but the collector and the trace. -/
structure SameButNoted (s t : HTTPServer) : Prop where
  loop : t.loop = s.loop
  removed : t.removed = s.removed
  connections : t.connections = s.connections
  accepted : t.accepted = s.accepted
  descriptors : t.descriptors = s.descriptors
  phase : t.phase = s.phase
  batch : t.batch = s.batch

theorem iterate_onRequestFinish (pointer : ConnectionPointer) (n : Nat) (s : HTTPServer) :
    SameButNoted s ((onRequestFinish pointer)^[n] s) ∧
      ((onRequestFinish pointer)^[n] s).trace =
        s.trace ++ List.replicate n (s.moment, .finished pointer.serial) := by
  induction n generalizing s with
  | zero => exact ⟨⟨rfl, rfl, rfl, rfl, rfl, rfl, rfl⟩, by simp⟩
  | succ n ih =>
    obtain ⟨hsame, htrace⟩ := ih (s.onRequestFinish pointer)
    rw [Function.iterate_succ, Function.comp_apply]
    refine ⟨⟨hsame.loop, hsame.removed, hsame.connections, hsame.accepted, hsame.descriptors,
      hsame.phase, hsame.batch⟩, ?_⟩
    have hmoment : (s.onRequestFinish pointer).moment = s.moment := rfl
    rw [htrace, hmoment, List.replicate_succ]
    simp [onRequestFinish, note]

/-- The step lemma for a callback of a connection. -/
theorem Kept.afterCallback {s : HTTPServer} (h : s.Kept) {pointer : ConnectionPointer}
    {c : ServerConnection} (hc : s.connections pointer.address = some c)
    (hserial : c.serial = pointer.serial) (hopen : c.isOpen = true)
    (hphase : s.phase ≠ .waiting) {http : HTTPConnection}
    (heffect : FinishEffect c.http.data http.data) :
    (((s.note (.invoked pointer.serial)).afterCallback pointer.address c http).note
      (.returned pointer.serial)).Kept := by
  obtain ⟨map, hregistered⟩ := h.registered
  let next : ServerConnection := { c with http := http }
  let changed := (s.note (.invoked pointer.serial)).withConnection pointer.address c (some next)
  let count := http.data.finished - c.finished
  have hchanged : ∃ map', changed.Registered map' := by
    have hinvoked : (s.note (.invoked pointer.serial)).Registered map :=
      hregistered.congr rfl rfl rfl rfl hregistered.readable
    refine hinvoked.withConnection hc (some next) ?_
    rintro c' ⟨⟩
    exact ⟨rfl, rfl, fun _ => hopen⟩
  obtain ⟨map', hmap'⟩ := hchanged
  obtain ⟨hsame, hnoted⟩ := iterate_onRequestFinish ⟨pointer.address, c.serial⟩ count changed
  have hconnections := hsame.connections
  have haccepted := hsame.accepted
  have hbatch := hsame.batch
  have hphase' := hsame.phase
  have hmoment : changed.moment = s.moment := by simp [changed, moment, note]
  simp only [changed, withConnection_connections, withConnection_accepted, withConnection_batch,
    withConnection_phase] at hconnections haccepted hbatch hphase'
  rw [afterCallback_eq]
  constructor
  · exact ⟨map', hmap'.congr hsame.loop hsame.removed hsame.connections hsame.descriptors
      fun tests ht => hmap'.readable tests (hsame.phase.symm.trans ht)⟩
  · have heffect' : FinishEffect c.http.data next.http.data := heffect
    refine h.scheduled.finish hc heffect' hconnections ?_ fun hw => hphase (hphase'.symm.trans hw)
    have hcollector : changed.collector = s.collector := withConnection_collector _ _ _ _
    rcases heffect with ⟨hfinished, -⟩ | ⟨hfinished, -⟩
    · have hcount : count = 0 := Nat.sub_eq_zero_of_le (Nat.le_of_eq hfinished)
      have hnot : ¬ c.finished < next.finished := Nat.not_lt.mpr (Nat.le_of_eq hfinished)
      rw [if_neg hnot, ← hcollector]
      simp only [note, count, hcount, Function.iterate_zero, id_eq, changed, next]
    · have hcount : count = 1 := Nat.sub_eq_of_eq_add' hfinished
      have hlt : c.finished < next.finished :=
        Nat.lt_of_lt_of_eq (Nat.lt_succ_self _) hfinished.symm
      rw [if_pos hlt, ← hcollector]
      simp only [note, count, hcount, Function.iterate_one, changed, next, onRequestFinish]
  · have hmono : c.finished ≤ next.finished := by
      rcases heffect with ⟨hfinished, -⟩ | ⟨hfinished, -⟩
      · exact Nat.le_of_eq hfinished.symm
      · exact Nat.le_of_lt (Nat.lt_of_lt_of_eq (Nat.lt_succ_self _) hfinished.symm)
    have hsame' : next.serial = c.serial := rfl
    let finished := (onRequestFinish ⟨pointer.address, c.serial⟩)^[count] changed
    have hlast : finished.moment = s.moment := by
      rw [← hmoment, moment, moment, hsame.batch, hsame.phase]
    have htrace : changed.trace = s.trace ++ [(s.moment, .invoked pointer.serial)] :=
      withConnection_trace _ _ _ _
    have hrecord : (finished.note (.returned pointer.serial)).trace =
        s.trace ++ callbackTrace s.moment c.serial count := by
      have hreturned : (finished.note (.returned pointer.serial)).trace =
        finished.trace ++ [(finished.moment, .returned pointer.serial)] := rfl
      rw [hreturned, hlast, hnoted, htrace, hmoment, ← hserial, callbackTrace, List.append_assoc,
        List.append_assoc, List.singleton_append]
    exact h.recorded.callback hc hsame' hmono hconnections haccepted hbatch hrecord

/-- The step lemma for a round of the collect, which the loop is left after or
which takes the first entry off the list. -/
theorem Kept.collectRound {s : HTTPServer} (h : s.Kept) (hphase : s.phase = .collecting) :
    ∃ t, s.collectRound = .ok t ∧ t.Kept ∧ t.batch = s.batch ∧
      (t.phase = .waiting ∨ t.phase = .collecting ∧
        t.collector.collectEntriesList.length < s.collector.collectEntriesList.length) := by
  obtain ⟨map, hregistered⟩ := h.registered
  rw [HTTPServer.collectRound]
  cases hlist : s.collector.collectEntriesList with
  | nil =>
    refine ⟨_, rfl, ?_, rfl, .inl rfl⟩
    constructor
    · exact ⟨map, hregistered.congr rfl rfl rfl rfl nofun⟩
    · exact h.scheduled.congr rfl rfl fun _ => hlist
    · exact h.recorded.congr rfl rfl rfl (.inl rfl)
  | cons entry next =>
    have hmem : entry.data ∈ s.collector.collectEntriesList.map CollectEntry.data := by
      simp [hlist]
    obtain ⟨c, hc, hpos⟩ := (h.scheduled.mem_iff entry.data).mp hmem
    let gone := (s.note (.destroyed c.serial)).withConnection entry.data c none
    have hgone : ∃ map', gone.Registered map' := by
      have hnoted : (s.note (.destroyed c.serial)).Registered map :=
        hregistered.congr rfl rfl rfl rfl hregistered.readable
      exact hnoted.withConnection hc none nofun
    obtain ⟨map', hmap'⟩ := hgone
    have hcollector : gone.collector = s.collector := withConnection_collector _ _ _ _
    have haccepted : gone.accepted = s.accepted := withConnection_accepted _ _ _ _
    have hbatch : gone.batch = s.batch := withConnection_batch _ _ _ _
    have hphase' : gone.phase = .collecting := (withConnection_phase _ _ _ _).trans hphase
    have htrace : gone.trace = s.trace ++ [(⟨s.batch, true⟩, .destroyed c.serial)] := by
      simp [gone, note, moment, hphase]
    simp only [httpConnectionDestroy_eq hc, Outcome.map_ok]
    refine ⟨_, rfl, ?_, hbatch, .inr ⟨hphase', Nat.lt_succ_self _⟩⟩
    constructor
    · exact ⟨map', hmap'.congr rfl rfl rfl rfl hmap'.readable⟩
    · refine h.scheduled.destroy hlist rfl ?_ ?_
      · rw [← hcollector]
      · rw [hphase']
        nofun
    · exact h.recorded.destroy hc hpos rfl haccepted hbatch htrace

/-- The step lemma for a callback found by a test. -/
theorem Kept.invoke {s : HTTPServer} (h : s.Kept) (parseUrl : ParseUrl) (serverName : Bytes)
    {map : WatchMap ServerCallback} (hmap : s.Registered map) {fd : Nat}
    {type : ELoopWatchFdCallbackType} {callback : ServerCallback}
    (hcallback : map fd type = some callback) (hphase : s.phase ≠ .waiting)
    (answers : TestAnswers) :
    Proceeds (s.invoke parseUrl serverName callback type answers) := by
  cases callback with
  | onIncomingConnection =>
    simp only [HTTPServer.invoke, onIncomingConnection]
    cases answers.accepted with
    | none => exact h
    | some answer =>
      simp only
      split
      · rename_i haccepts
        obtain ⟨-, hconnection, -, -⟩ := id haccepts
        constructor
        · exact hmap.onAccept serverName haccepts
        · exact h.scheduled.accept hconnection rfl rfl rfl rfl rfl
        · exact h.recorded.accept hconnection rfl rfl rfl rfl rfl rfl
      · exact h
  | onSignal =>
    simp only [HTTPServer.invoke, onSignal]
    split
    · constructor
      · refine ⟨map, ⟨hmap.watches.holds.congr rfl rfl rfl, hmap.watches.removed,
          hmap.watches.descriptors⟩, hmap.open_iff, hmap.readable⟩
      · exact h.scheduled.congr rfl rfl h.scheduled.idle
      · exact h.recorded.congr rfl rfl rfl (.inl rfl)
    · exact h
  | onReady pointer =>
    obtain ⟨c, hc, hserial, hopen, -⟩ := (hmap.open_iff fd type pointer).mp hcallback
    have heffect : (c.http.step parseUrl answers.serve (answers.event type)).Holds fun n =>
        FinishEffect c.http.data n.data := HTTPConnection.finishEffect_step _ _
    simp only [HTTPServer.invoke, onReady, hc]
    cases hstep : c.http.step parseUrl answers.serve (answers.event type) with
    | ok http =>
      rw [hstep] at heffect
      exact h.afterCallback hc hserial hopen hphase heffect
    | failed http =>
      rw [hstep] at heffect
      exact h.afterCallback hc hserial hopen hphase heffect
    | undefined why => exact ⟨why, rfl⟩

/-- The record a test reads is there, and a callback found in it is that of the map. -/
theorem Registered.callbackAt {map : WatchMap ServerCallback} {s : HTTPServer}
    (h : s.Registered map) {address : Nat} (hread : s.loop.Readable s.removed address)
    (type : ELoopWatchFdCallbackType) :
    ∃ found, s.callbackAt address type = some found ∧
      ∀ callback, found = some callback → ∃ fd, map fd type = some callback := by
  rw [HTTPServer.callbackAt]
  cases hload : s.loop.load address with
  | some ec =>
    refine ⟨_, rfl, fun callback hcallback => ⟨ec.fd, ?_⟩⟩
    have hmem := List.mem_of_find?_eq_some hload
    rw [← (ELoop.Represents.of_holds h.watches.holds).callbacks_eq ec hmem]
    exact hcallback
  | none =>
    obtain ⟨ec, hec, haddress⟩ := hread
    have hfreed : ec ∈ s.removed := by
      rcases List.mem_append.mp hec with hlist | hfreed
      · have hnone := List.find?_eq_none.mp hload ec hlist
        simp [haddress] at hnone
      · exact hfreed
    cases hfind : s.removed.find? fun ec => ec.registration.address = address with
    | none =>
      have hnone := List.find?_eq_none.mp hfind ec hfreed
      simp [haddress] at hnone
    | some found =>
      refine ⟨_, rfl, fun callback hcallback => ?_⟩
      cases (h.watches.removed found (List.mem_of_find?_eq_some hfind) type).symm.trans hcallback

/-- The step lemma. -/
theorem Kept.step {s : HTTPServer} (h : s.Kept) (parseUrl : ParseUrl) (serverName : Bytes)
    (i : ServerInput) : Proceeds (s.step parseUrl serverName i) := by
  obtain ⟨map, hregistered⟩ := h.registered
  cases hphase : s.phase with
  | waiting =>
    cases i with
    | wait ready =>
      simp only [HTTPServer.step, hphase]
      split
      · have hempty := h.scheduled.idle hphase
        have hnone : ∀ address c, s.connections address = some c → ¬ 0 < c.finished := by
          intro address c hc hpos
          have hmem := (h.scheduled.mem_iff address).mpr ⟨c, hc, hpos⟩
          simp [hempty] at hmem
        constructor
        · refine ⟨map, ⟨hregistered.watches.holds, nofun, hregistered.watches.descriptors⟩,
            hregistered.open_iff, ?_⟩
          rintro tests ⟨⟩ t ht
          exact hregistered.watches.holds.readable_reported ht
        · exact h.scheduled.congr rfl rfl nofun
        · exact h.recorded.congr rfl rfl rfl (.inr hnone)
      · trivial
    | test answers => simp only [HTTPServer.step, hphase, Proceeds]
    | collect => simp only [HTTPServer.step, hphase, Proceeds]
  | dispatching tests =>
    cases i with
    | wait ready => simp only [HTTPServer.step, hphase, Proceeds]
    | test answers =>
      cases tests with
      | nil => simp only [HTTPServer.step, hphase, Proceeds]
      | cons next tests =>
        simp only [HTTPServer.step, hphase, test]
        let rest : HTTPServer := { s with phase := .dispatching tests }
        have hrest : rest.Registered map := by
          refine hregistered.congr rfl rfl rfl rfl ?_
          rintro later ⟨⟩ t ht
          exact hregistered.readable _ hphase t (List.mem_cons_of_mem _ ht)
        have hkept : rest.Kept :=
          ⟨⟨map, hrest⟩, h.scheduled.congr rfl rfl nofun, h.recorded.congr rfl rfl rfl (.inl rfl)⟩
        have hread := hregistered.readable _ hphase next List.mem_cons_self
        obtain ⟨found, hfound, hcallback⟩ := hrest.callbackAt hread next.2
        rw [hfound]
        cases found with
        | none => exact hkept
        | some callback =>
          obtain ⟨fd, hmap⟩ := hcallback callback rfl
          exact hkept.invoke parseUrl serverName hrest hmap nofun answers
    | collect =>
      cases tests with
      | nil =>
        simp only [HTTPServer.step, hphase]
        exact ⟨⟨map, hregistered.congr rfl rfl rfl rfl nofun⟩,
          h.scheduled.congr rfl rfl nofun, h.recorded.congr rfl rfl rfl (.inl rfl)⟩
      | cons next tests => simp only [HTTPServer.step, hphase, Proceeds]
  | collecting =>
    cases i with
    | wait ready => simp only [HTTPServer.step, hphase, Proceeds]
    | test answers => simp only [HTTPServer.step, hphase, Proceeds]
    | collect =>
      obtain ⟨t, ht, hkept, -⟩ := h.collectRound hphase
      simp only [HTTPServer.step, hphase, ht]
      exact hkept

/-- The watches of `main`. -/
theorem watches_start (u : ServerSetup) : u.start.Watches
    ([.add u.signalFd .read .onSignal u.signalRecord,
      .add u.listenFd .read .onIncomingConnection u.listenRecord].foldl WatchCall.note
        fun _ _ => none) := by
  let empty : HTTPServer :=
    ⟨ELoop.new, [], Collector.new, fun _ => none, 0, [u.listenFd, u.signalFd], .waiting, 0, []⟩
  have hempty : empty.Watches fun _ _ => none := ⟨ELoop.holds_new, nofun, nofun⟩
  have hsignalFd : u.signalFd ∈ empty.descriptors := List.mem_cons_of_mem _ List.mem_cons_self
  have hsignal := hempty.add hsignalFd .read .onSignal u.signalRecord fun _ => rfl
  have hlistenFd : u.listenFd ∈ (empty.addFdWatch u.signalFd .read .onSignal
    u.signalRecord).descriptors := List.mem_cons_self
  have hunused : (empty.addFdWatch u.signalFd .read .onSignal u.signalRecord).loop.load
      u.listenRecord = none := by
    refine List.find?_eq_none.mpr fun ec hec => ?_
    have haddress : ec.registration.address = u.signalRecord := by
      simp only [addFdWatch, ELoop.addFdWatch, ELoop.findCallbackByFd, empty, ELoop.new,
        List.find?_nil, ELoop.memoryCreate, ELoop.load, Option.bind_some,
        ELoop.control_callbacksList, Option.isSome_none, Bool.false_eq_true, if_false,
        List.mem_singleton] at hec
      rw [hec]
      rfl
    simpa [haddress] using u.records
  have hlisten := hsignal.add hlistenFd .read .onIncomingConnection u.listenRecord
    fun _ => hunused
  exact ⟨hlisten.holds.congr rfl rfl rfl, hlisten.removed, hlisten.descriptors⟩

theorem registered_start (u : ServerSetup) : ∃ map, u.start.Registered map := by
  refine ⟨_, watches_start u, fun fd type pointer => ⟨fun hmap => ?_, ?_⟩, nofun⟩
  · simp only [List.foldl_cons, List.foldl_nil, WatchCall.note, Function.update_apply] at hmap
    split_ifs at hmap <;> cases type <;> simp at hmap
  · rintro ⟨c, hc, -⟩
    cases hc

theorem kept_start (u : ServerSetup) : u.start.Kept := by
  have hcollector : u.start.collector = Collector.new := rfl
  have hconnections : u.start.connections = fun _ => none := rfl
  have htrace : u.start.trace = [] := rfl
  refine ⟨registered_start u, ?_, ?_⟩
  · constructor <;> simp [hcollector, hconnections, Collector.new]
  · constructor
    case guarded =>
      intro xs e ys he
      simp [htrace] at he
    all_goals simp [hconnections, htrace, CallbackRunning]

/-- The run lemma. -/
theorem kept_run {parseUrl : ParseUrl} {serverName : Bytes} {u : ServerSetup}
    {is : List ServerInput} {s : HTTPServer}
    (hs : run (step parseUrl serverName) is u.start = .ok s) : s.Kept := by
  refine run_history (step parseUrl serverName) (I := fun _ => Kept) (kept_start u) ?_ hs
  intro _ i s t h ht
  have hproceeds := h.step parseUrl serverName i
  rw [ht] at hproceeds
  exact hproceeds

/-- The collect comes to its end, by induction on the length of the list. -/
theorem Kept.collects {s : HTTPServer} (h : s.Kept) (parseUrl : ParseUrl) (serverName : Bytes)
    (hphase : s.phase = .collecting) : ∃ n t,
      run (HTTPServer.step parseUrl serverName) (List.replicate n .collect) s = .ok t ∧
      t.Collected s.batch := by
  induction hlength : s.collector.collectEntriesList.length using Nat.strong_induction_on
    generalizing s with
  | _ length ih =>
    obtain ⟨t, ht, hkept, hbatch, hnext⟩ := h.collectRound hphase
    have hstep : HTTPServer.step parseUrl serverName .collect s = .ok t := by
      simp only [HTTPServer.step, hphase, ht]
    rcases hnext with hwaiting | ⟨hcollecting, hshorter⟩
    · exact ⟨1, t, by simp [hstep], .inr ⟨hbatch.symm, hwaiting⟩⟩
    · obtain ⟨n, u, hu, hcollected⟩ := ih _ (hlength ▸ hshorter) hkept hcollecting rfl
      refine ⟨n + 1, u, ?_, hbatch ▸ hcollected⟩
      rw [List.replicate_succ, CallOutcome.run_cons, hstep]
      exact hu

theorem Kept.defersDestruction {s : HTTPServer} (h : s.Kept) (parseUrl : ParseUrl)
    (serverName : Bytes) : s.DefersDestruction parseUrl serverName := by
  obtain ⟨map, hregistered⟩ := h.registered
  refine ⟨h.recorded.guarded, ?_, ?_, h.collects parseUrl serverName, ?_⟩
  · intro m serial hm hcollected
    rcases h.recorded.finished m serial hm with ⟨hmb, address, c, hc, -, hpos⟩ | hgone
    · rcases hcollected with hlt | ⟨-, hwaiting⟩
      · omega
      · have hmem := (h.scheduled.mem_iff address).mpr ⟨c, hc, hpos⟩
        simp [h.scheduled.idle hwaiting] at hmem
    · exact hgone
  · intro serial hgone ec hec type address hcallback
    have hmap : map ec.fd type = some (.onReady ⟨address, serial⟩) := by
      rw [← (ELoop.Represents.of_holds hregistered.watches.holds).callbacks_eq ec hec]
      exact hcallback
    obtain ⟨c, hc, hserial, -, -⟩ := (hregistered.open_iff ec.fd type _).mp hmap
    have halive := h.recorded.alive address c hc
    rw [hserial] at halive
    exact hgone halive
  · intro i address
    have hproceeds := h.step parseUrl serverName i
    constructor
    · intro heq
      rw [heq] at hproceeds
      obtain ⟨fault, hfault⟩ := hproceeds
      cases hfault
    · intro heq
      rw [heq] at hproceeds
      obtain ⟨fault, hfault⟩ := hproceeds
      cases hfault

/-- In every run of the server each connection that is to finish is destroyed
once, by the collect of the batch, and not used afterwards. -/
theorem defersDestruction_always (parseUrl : ParseUrl) (serverName : Bytes) (u : ServerSetup)
    (is : List ServerInput) :
    Always (step parseUrl serverName) (DefersDestruction parseUrl serverName) u.start is := by
  intro xs ys s _ hs
  exact (kept_run hs).defersDestruction parseUrl serverName

/-- A connection is accepted in one batch, and its peer closes in the next. -/
example :
    let answers : TestAnswers :=
      ⟨some ⟨5, 1000, 300⟩, .wouldBlock, fun _ _ => [], true, .wouldBlock, false⟩
    let setup : ServerSetup := ⟨3, 4, 100, 200, by decide, by decide⟩
    let is : List ServerInput := [.wait [(4, ⟨true, false, false⟩)], .test answers, .collect,
      .collect, .wait [(5, ⟨false, false, true⟩)], .test answers, .collect, .collect, .collect]
    (run (step parsePath (ascii "rapp")) is setup.start).toOption.map
      (fun s => (s.destructions 0, s.phase)) = some ([⟨2, true⟩], .waiting) := by
  decide +kernel

end HTTPServer

end Rapp

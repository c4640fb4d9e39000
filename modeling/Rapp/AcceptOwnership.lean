import Rapp.AcceptedSocket
import Rapp.WatchAnswers

/-!
# Accepting a connection

The watches of a connection are added in the state that `accept4` leaves, and
every event keeps the records of the loop to open descriptors.
-/
namespace Rapp

open ObjectHeap (Heap)

/-! ### The three watches of a connection -/

namespace SocketServer

/-- The server after a watch that was granted. -/
def withCallback (s : SocketServer) (tcpConnection : Nat) (type : ELoopWatchFdCallbackType)
    (loop : ELoop SocketCallback) : SocketServer :=
  { s with
    loop := loop
    tcpConnections := s.tcpConnections.modify tcpConnection fun connection =>
      { connection with callbacks := Function.update connection.callbacks type true } }

/-- The first watch of a connection. -/
theorem setCallback_first {s : SocketServer} (hsound : s.loop.Sound) {fd : Nat}
    (hfind : s.loop.findCallbackByFd fd = none) (hinterest : s.loop.interest fd = none)
    (tcpConnection : Nat) (type : ELoopWatchFdCallbackType) (answers : AcceptAnswers) :
    (∃ loop, s.setCallback fd tcpConnection type answers =
        (0, s.withCallback tcpConnection type loop) ∧
      ((s.loop.memoryCreate answers.record).isSome = true ∧ answers.accepted type = true) ∧
      s.loop.Granted loop fd type (.onReady tcpConnection)) ∨
    ∃ loop, s.setCallback fd tcpConnection type answers = (-1, { s with loop := loop }) ∧
      ¬ ((s.loop.memoryCreate answers.record).isSome = true ∧ answers.accepted type = true) ∧
      loop.interest fd = none := by
  obtain ⟨loop, hadd, htaken, hgranted⟩ | ⟨loop, hadd, hrefused, hnone⟩ :=
    hsound.addFdWatch_first hfind hinterest type (.onReady tcpConnection) answers.record
      (answers.accepted type)
  · exact .inl ⟨loop, by simp [setCallback, hadd, withCallback], htaken, hgranted⟩
  · exact .inr ⟨loop, by simp [setCallback, hadd], hrefused, hnone⟩

/-- A further one. -/
theorem setCallback_further {s : SocketServer} (hsound : s.loop.Sound) {fd : Nat}
    {ec : ELoopCallback SocketCallback} (hfind : s.loop.findCallbackByFd fd = some ec)
    {old : Interest} (hinterest : s.loop.interest fd = some old) (tcpConnection : Nat)
    (type : ELoopWatchFdCallbackType) (answers : AcceptAnswers) :
    (∃ loop, s.setCallback fd tcpConnection type answers =
        (0, s.withCallback tcpConnection type loop) ∧
      answers.accepted type = true ∧ s.loop.Granted loop fd type (.onReady tcpConnection)) ∨
    ∃ loop, s.setCallback fd tcpConnection type answers = (-1, { s with loop := loop }) ∧
      answers.accepted type = false ∧ loop.interest fd = some old := by
  obtain ⟨loop, hadd, htaken, hgranted⟩ | ⟨loop, hadd, hrefused, hkept⟩ :=
    hsound.addFdWatch_further hfind hinterest type (.onReady tcpConnection) answers.record
      (answers.accepted type)
  · exact .inl ⟨loop, by simp [setCallback, hadd, withCallback], htaken, hgranted⟩
  · exact .inr ⟨loop, by simp [setCallback, hadd], hrefused, hkept⟩

/-- What `tcp_connection_set_callbacks` leaves: everything is set and watched
when there is memory for the record and the kernel takes all three watches, and
otherwise the kernel does not watch all three. -/
theorem tcpConnectionSetCallbacks_spec {s : SocketServer} (hsound : s.loop.Sound) {fd : Nat}
    (hfind : s.loop.findCallbackByFd fd = none) (hinterest : s.loop.interest fd = none)
    (tcpConnection httpConnection : Nat) (answers : AcceptAnswers) :
    ∃ loop f, (s.tcpConnectionSetCallbacks fd tcpConnection httpConnection answers).2 = { s with
        loop := loop
        tcpConnections := s.tcpConnections.modify tcpConnection f } ∧
      (((s.loop.memoryCreate answers.record).isSome = true ∧
          (∀ type, answers.accepted type = true) ∧
          (∀ connection, f connection = ⟨connection.fd, fun _ => true, some httpConnection⟩) ∧
          ∀ type, loop.callbackOf fd type = some (.onReady tcpConnection) ∧
            ∃ interest, loop.interest fd = some interest ∧ interest.events.has type = true) ∨
        (¬ ((s.loop.memoryCreate answers.record).isSome = true ∧
            ∀ type, answers.accepted type = true) ∧
          ∀ interest, loop.interest fd = some interest →
            ∃ type, interest.events.has type = false)) := by
  have hmask : s.loop.maskOf fd = EpollEvents.none := by
    rw [ELoop.maskOf, hfind]
    rfl
  obtain ⟨loop₁, hcall₁, htaken₁, hgranted₁⟩ | ⟨loop₁, hcall₁, hrefused, hnone⟩ :=
    setCallback_first hsound hfind hinterest tcpConnection .read answers
  swap
  · -- The first watch is refused, and the kernel has none.
    refine ⟨loop₁, id, by simp [tcpConnectionSetCallbacks, hcall₁], .inr ?_⟩
    refine ⟨fun hall => hrefused ⟨hall.1, hall.2 .read⟩, fun interest hsome => ?_⟩
    rw [hnone] at hsome
    cases hsome
  let s₁ := s.withCallback tcpConnection .read loop₁
  change _ = (0, s₁) at hcall₁
  obtain ⟨f₁, hheap₁⟩ : ∃ f, s₁.tcpConnections = s.tcpConnections.modify tcpConnection f := ⟨_, rfl⟩
  obtain ⟨ec₁, hfound₁⟩ := hgranted₁.found
  obtain ⟨interest₁, hinterest₁, hevents₁⟩ := hgranted₁.interest
  rw [hgranted₁.mask, hmask] at hevents₁
  obtain ⟨loop₂, hcall₂, htaken₂, hgranted₂⟩ | ⟨loop₂, hcall₂, hrefused, hkept⟩ :=
    @setCallback_further s₁ hgranted₁.sound fd ec₁ hfound₁ interest₁ hinterest₁ tcpConnection
      .write answers
  swap
  · -- The second watch is refused, and the kernel has the first.
    refine ⟨loop₂, f₁, ?_, .inr ⟨fun hall => ?_, fun interest hsome => ?_⟩⟩
    · simp only [tcpConnectionSetCallbacks, hcall₁, hcall₂, lt_self_iff_false, if_false]
      rw [← hheap₁]
      rfl
    · exact absurd (hall.2 .write) (by simp [hrefused])
    · rw [hkept] at hsome
      cases hsome
      exact ⟨.write, by rw [hevents₁]; rfl⟩
  let s₂ := s₁.withCallback tcpConnection .write loop₂
  change _ = (0, s₂) at hcall₂
  obtain ⟨f₂, hheap₂⟩ : ∃ f, s₂.tcpConnections = s.tcpConnections.modify tcpConnection f :=
    ⟨_, Heap.modify_modify _ _ _ _⟩
  obtain ⟨ec₂, hfound₂⟩ := hgranted₂.found
  obtain ⟨interest₂, hinterest₂, hevents₂⟩ := hgranted₂.interest
  have hmask₁ : s₁.loop.maskOf fd = EpollEvents.none.assign true .read := by
    rw [← hmask]
    exact hgranted₁.mask
  rw [hgranted₂.mask, hmask₁] at hevents₂
  obtain ⟨loop₃, hcall₃, htaken₃, hgranted₃⟩ | ⟨loop₃, hcall₃, hrefused, hkept⟩ :=
    @setCallback_further s₂ hgranted₂.sound fd ec₂ hfound₂ interest₂ hinterest₂ tcpConnection
      .close answers
  swap
  · -- The third watch is refused, and the kernel has the first two.
    refine ⟨loop₃, f₂, ?_, .inr ⟨fun hall => ?_, fun interest hsome => ?_⟩⟩
    · simp only [tcpConnectionSetCallbacks, hcall₁, hcall₂, hcall₃, lt_self_iff_false, if_false]
      rw [← hheap₂]
      rfl
    · exact absurd (hall.2 .close) (by simp [hrefused])
    · rw [hkept] at hsome
      cases hsome
      exact ⟨.close, by rw [hevents₂]; rfl⟩
  obtain ⟨interest₃, hinterest₃, hevents₃⟩ := hgranted₃.interest
  have hmask₂ : s₂.loop.maskOf fd = (EpollEvents.none.assign true .read).assign true .write := by
    rw [← hmask₁]
    exact hgranted₂.mask
  rw [hgranted₃.mask, hmask₂] at hevents₃
  refine ⟨loop₃, fun connection => ⟨connection.fd, fun _ => true, some httpConnection⟩, ?_,
    .inl ⟨htaken₁.1, ?_, fun _ => rfl, fun type => ⟨?_, interest₃, hinterest₃, ?_⟩⟩⟩
  · have hcallbacks : ∀ callbacks : ELoopWatchFdCallbackType → Bool,
        Function.update (Function.update (Function.update callbacks .read true) .write true)
          .close true = fun _ => true := by
      intro callbacks
      funext type
      cases type <;> rfl
    simp only [tcpConnectionSetCallbacks, hcall₁, hcall₂, hcall₃, lt_self_iff_false, if_false]
    simp only [s₂, s₁, withCallback, Heap.modify_modify, hcallbacks]
  · intro type
    cases type with
    | read => exact htaken₁.2
    | write => exact htaken₂
    | close => exact htaken₃
  · have hcallbacks₂ : s₂.loop.callbackOf fd = _ := hgranted₂.callbacks
    have hcallbacks₁ : s₁.loop.callbackOf fd = _ := hgranted₁.callbacks
    rw [hgranted₃.callbacks, hcallbacks₂, hcallbacks₁]
    cases type <;> rfl
  · rw [hevents₃]
    cases type <;> rfl

/-! ### One accepted socket -/

/-- `http_connection_new` releases what it has created when one of its own
allocations fails. -/
theorem httpConnectionNew_failed {s : SocketServer} {answers : AcceptAnswers}
    (h : ¬ (s.httpConnections.Gives answers.httpConnection ∧
      s.requestQueues.Gives answers.requestQueue ∧ s.responses.Gives answers.response))
    (fd tcpConnection : Nat) : s.httpConnectionNew fd tcpConnection answers = (none, s) := by
  by_cases hhttp : s.httpConnections.Gives answers.httpConnection
  swap
  · simp only [httpConnectionNew, Heap.create_of_not_gives hhttp]
  obtain ⟨httpConnection, hanswer, hfree⟩ := hhttp
  by_cases hqueue : s.requestQueues.Gives answers.requestQueue
  swap
  · simp only [httpConnectionNew, hanswer, Heap.create_of_free hfree,
      Heap.create_of_not_gives hqueue, Heap.destroy_update hfree]
  obtain ⟨requestQueue, hanswer', hfree'⟩ := hqueue
  have hresponse : ¬ s.responses.Gives answers.response := by
    intro hgives
    exact h ⟨⟨httpConnection, hanswer, hfree⟩, ⟨requestQueue, hanswer', hfree'⟩, hgives⟩
  simp only [httpConnectionNew, hanswer, hanswer', Heap.create_of_free hfree,
    Heap.create_of_free hfree', Heap.create_of_not_gives hresponse, Heap.modify_update,
    Heap.destroy_update hfree, Heap.destroy_update hfree']

/-- The server with the objects of a connection that has no watches yet. -/
def withHttpConnection (s : SocketServer)
    (tcpConnection httpConnection requestQueue response : Nat) : SocketServer :=
  { s with
    requestQueues := Function.update s.requestQueues requestQueue (some ⟨some httpConnection⟩)
    responses := Function.update s.responses response (some ())
    httpConnections := Function.update s.httpConnections httpConnection
      (some ⟨some tcpConnection, false, some requestQueue, some response⟩) }

theorem onAccept_failed {s : SocketServer} {answers : AcceptAnswers}
    (h : ¬ (s.httpConnections.Gives answers.httpConnection ∧
      s.requestQueues.Gives answers.requestQueue ∧ s.responses.Gives answers.response))
    (fd tcpConnection : Nat) : s.onAccept fd tcpConnection answers = s := by
  simp only [onAccept, httpConnectionNew_failed h]

theorem onAccept_created {s : SocketServer} {answers : AcceptAnswers}
    (h : s.httpConnections.Gives answers.httpConnection ∧
      s.requestQueues.Gives answers.requestQueue ∧ s.responses.Gives answers.response)
    (fd tcpConnection : Nat) :
    ∃ httpConnection requestQueue response, ∀ after : SocketServer,
      ((s.withHttpConnection tcpConnection httpConnection requestQueue
        response).tcpConnectionSetCallbacks fd tcpConnection httpConnection answers).2 = after →
      s.onAccept fd tcpConnection answers = { after with
        httpConnections := after.httpConnections.modify httpConnection fun connection =>
          { connection with finishCallback := true } } := by
  obtain ⟨⟨httpConnection, hhttp, hhttp'⟩, ⟨requestQueue, hqueue, hqueue'⟩,
    ⟨response, hresponse, hresponse'⟩⟩ := h
  refine ⟨httpConnection, requestQueue, response, fun after hafter => ?_⟩
  simp only [withHttpConnection] at hafter
  simp only [onAccept, httpConnectionNew, hhttp, hqueue, hresponse, Heap.create_of_free hhttp',
    Heap.create_of_free hqueue', Heap.create_of_free hresponse', Heap.modify_update, hafter]

/-- The records of the loop are of open descriptors, one for each. -/
structure Kept (s : SocketServer) : Prop where
  sound : s.loop.Sound
  single : (s.loop.callbacksList.map ELoopCallback.fd).Nodup
  opened : ∀ fd ∈ s.loop.callbacksList.map ELoopCallback.fd, fd ∈ s.descriptors

/-- A descriptor that is not open has no watch. -/
theorem Kept.unwatched {s : SocketServer} (h : s.Kept) {fd : Nat} (hfd : fd ∉ s.descriptors) :
    s.loop.findCallbackByFd fd = none ∧ s.loop.interest fd = none := by
  have hnone : fd ∉ s.loop.callbacksList.map ELoopCallback.fd := fun hmem => hfd (h.opened fd hmem)
  refine ⟨(ELoop.find_eq_none_iff s.loop fd).mpr hnone, ?_⟩
  cases hinterest : s.loop.interest fd with
  | none => rfl
  | some interest =>
    obtain ⟨ec, hec, he⟩ := List.mem_map.mp (h.sound.interest fd interest hinterest)
    exact absurd (List.mem_map.mpr ⟨ec, hec, (Prod.mk.inj he).1⟩) hnone

/-- The socket is closed when there is no memory for its `TcpConnection`. -/
theorem Kept.released {s : SocketServer} (h : s.Kept) {fd : Nat} (hfd : fd ∉ s.descriptors)
    {answers : AcceptAnswers} (htcp : ¬ s.tcpConnections.Gives answers.tcpConnection) :
    s.Released (s.onIncomingConnection fd answers).2 fd := by
  obtain ⟨hfind, -⟩ := h.unwatched hfd
  have hcall : s.onIncomingConnection fd answers =
      (-1, closeDescriptor fd { s with descriptors := fd :: s.descriptors }) := by
    simp only [onIncomingConnection, tcpConnectionWithFd, Heap.create_of_not_gives htcp,
      Option.map_none]
  rw [hcall]
  exact ⟨by simp [closeDescriptor], ⟨hfind, Function.update_self _ _ _⟩, rfl, rfl, rfl, rfl⟩

/-- The state in which `on_accept` takes over. -/
def withTcpConnection (s : SocketServer) (fd tcpConnection : Nat) : SocketServer :=
  { s with
    descriptors := fd :: s.descriptors
    tcpConnections := Function.update s.tcpConnections tcpConnection
      (some ⟨some fd, fun _ => false, none⟩) }

theorem onIncomingConnection_created {s : SocketServer} {answers : AcceptAnswers}
    {tcpConnection : Nat} (htcp : answers.tcpConnection = some tcpConnection)
    (hfree : s.tcpConnections tcpConnection = none) (fd : Nat) :
    s.onIncomingConnection fd answers =
      (0, (s.withTcpConnection fd tcpConnection).onAccept fd tcpConnection answers) := by
  simp only [onIncomingConnection, tcpConnectionWithFd, htcp, Heap.create_of_free hfree,
    Option.map_some]
  rfl

/-- From then on the socket is saved only when everything succeeds. -/
theorem Kept.belongs_iff {s : SocketServer} (h : s.Kept) {fd : Nat} (hfd : fd ∉ s.descriptors)
    {answers : AcceptAnswers} {tcpConnection : Nat}
    (htcp : answers.tcpConnection = some tcpConnection)
    (hfree : s.tcpConnections tcpConnection = none) :
    ((s.onIncomingConnection fd answers).2.Belongs fd ↔ s.AllSucceed answers) ∧
      (s.onIncomingConnection fd answers).2.tcpConnections tcpConnection ≠ none := by
  obtain ⟨hfind, hinterest⟩ := h.unwatched hfd
  rw [onIncomingConnection_created htcp hfree]
  by_cases hall : s.httpConnections.Gives answers.httpConnection ∧
    s.requestQueues.Gives answers.requestQueue ∧ s.responses.Gives answers.response
  swap
  · have hfailed := @onAccept_failed (s.withTcpConnection fd tcpConnection) answers hall
      fd tcpConnection
    rw [hfailed]
    refine ⟨⟨?_, fun hsucceed => ?_⟩, by simp [withTcpConnection]⟩
    · rintro ⟨-, tcp, c, http, connection, -, -, -, -, -, -, hwatched⟩
      obtain ⟨-, -, interest, hsome, -⟩ := hwatched .read
      exact absurd (hsome.symm.trans hinterest) (by simp)
    · exact absurd ⟨hsucceed.httpConnection, hsucceed.requestQueue, hsucceed.response⟩ hall
  obtain ⟨httpConnection, requestQueue, response, haccept⟩ :=
    @onAccept_created (s.withTcpConnection fd tcpConnection) answers hall fd tcpConnection
  let s₂ := (s.withTcpConnection fd tcpConnection).withHttpConnection tcpConnection
    httpConnection requestQueue response
  obtain ⟨loop, f, hset, hcases⟩ := @tcpConnectionSetCallbacks_spec s₂ h.sound fd hfind hinterest
    tcpConnection httpConnection answers
  rw [haccept _ hset]
  simp only [s₂, withHttpConnection, withTcpConnection, Heap.modify_update]
  refine ⟨?_, by simp⟩
  obtain ⟨hrecord, haccepted, hf, hwatched⟩ | ⟨hrefused, hlacks⟩ := hcases
  · refine ⟨fun _ => ⟨⟨tcpConnection, htcp, hfree⟩, hall.1, hall.2.1, hall.2.2, hrecord,
      haccepted⟩, fun _ => ?_⟩
    refine ⟨List.mem_cons_self, tcpConnection, ⟨some fd, fun _ => true, some httpConnection⟩,
      httpConnection, ⟨some tcpConnection, true, some requestQueue, some response⟩, ?_, rfl, ?_,
      rfl, rfl, rfl, fun type => ⟨(hwatched type).1, rfl, (hwatched type).2⟩⟩
    · change Function.update _ _ _ tcpConnection = _
      rw [Function.update_self, hf]
    · exact Function.update_self _ _ _
  · refine ⟨?_, fun hsucceed => absurd ⟨hsucceed.record, hsucceed.accepted⟩ hrefused⟩
    rintro ⟨-, tcp, c, http, connection, -, -, -, -, -, -, hwatched⟩
    obtain ⟨-, -, interest, hsome, -⟩ := hwatched .read
    obtain ⟨type, hlack⟩ := hlacks interest hsome
    obtain ⟨-, -, interest', hsome', hhas⟩ := hwatched type
    rw [hsome] at hsome'
    cases hsome'
    rw [hlack] at hhas
    cases hhas

/-- What a state that the events reach says of the next accepted socket. -/
theorem Kept.notStranded_iff {s : SocketServer} (h : s.Kept) {fd : Nat} (hfd : fd ∉ s.descriptors)
    (answers : AcceptAnswers) :
    s.NotStranded fd answers ↔
      ¬ s.tcpConnections.Gives answers.tcpConnection ∨ s.AllSucceed answers := by
  by_cases htcp : s.tcpConnections.Gives answers.tcpConnection
  · obtain ⟨tcpConnection, hanswer, hfree⟩ := id htcp
    obtain ⟨hbelongs, hkept⟩ := h.belongs_iff hfd hanswer hfree
    rw [NotStranded, hbelongs, or_iff_left, or_iff_right (not_not_intro htcp)]
    intro hreleased
    rw [hreleased.tcpConnections] at hkept
    exact hkept hfree
  · exact ⟨fun _ => .inl htcp, fun _ => .inr (h.released hfd htcp)⟩

/-! ### Any events -/

theorem Kept.addFdWatch {s : SocketServer} (h : s.Kept) {fd : Nat} (hfd : fd ∈ s.descriptors)
    (type : ELoopWatchFdCallbackType) (callback : SocketCallback) (allocated : Option Nat)
    (accepted : Bool) :
    Kept { s with loop := (s.loop.addFdWatch fd type callback allocated accepted).2 } := by
  have hsound := ELoop.sound_apply h.sound (.add fd type callback allocated accepted)
  obtain hsame | ⟨hfind, hnew⟩ := h.sound.addFdWatch_fds fd type callback allocated accepted
  · refine ⟨hsound, ?_, ?_⟩
    · rw [hsame]
      exact h.single
    · rw [hsame]
      exact h.opened
  · refine ⟨hsound, ?_, ?_⟩
    · rw [hnew]
      exact List.nodup_cons.mpr ⟨(ELoop.find_eq_none_iff s.loop fd).mp hfind, h.single⟩
    · rw [hnew]
      exact List.forall_mem_cons.mpr ⟨hfd, h.opened⟩

theorem Kept.setCallback {s : SocketServer} (h : s.Kept) {fd : Nat} (hfd : fd ∈ s.descriptors)
    (tcpConnection : Nat) (type : ELoopWatchFdCallbackType) (answers : AcceptAnswers) :
    (s.setCallback fd tcpConnection type answers).2.Kept ∧
      (s.setCallback fd tcpConnection type answers).2.descriptors = s.descriptors := by
  have hadd := h.addFdWatch hfd type (.onReady tcpConnection) answers.record
    (answers.accepted type)
  simp only [SocketServer.setCallback]
  split
  · exact ⟨hadd, rfl⟩
  · exact ⟨⟨hadd.sound, hadd.single, hadd.opened⟩, rfl⟩

theorem Kept.tcpConnectionSetCallbacks {s : SocketServer} (h : s.Kept) {fd : Nat}
    (hfd : fd ∈ s.descriptors) (tcpConnection httpConnection : Nat) (answers : AcceptAnswers) :
    (s.tcpConnectionSetCallbacks fd tcpConnection httpConnection answers).2.Kept := by
  obtain ⟨hread, hopen₁⟩ := h.setCallback hfd tcpConnection .read answers
  obtain ⟨hwrite, hopen₂⟩ := hread.setCallback (hopen₁ ▸ hfd) tcpConnection .write answers
  obtain ⟨hclose, -⟩ := hwrite.setCallback (hopen₂ ▸ hopen₁ ▸ hfd) tcpConnection .close answers
  simp only [SocketServer.tcpConnectionSetCallbacks]
  split
  · exact hread
  split
  · exact hwrite
  split
  · exact hclose
  · exact ⟨hclose.sound, hclose.single, hclose.opened⟩

theorem Kept.onAccept {s : SocketServer} (h : s.Kept) {fd : Nat} (hfd : fd ∈ s.descriptors)
    (tcpConnection : Nat) (answers : AcceptAnswers) :
    (s.onAccept fd tcpConnection answers).Kept := by
  by_cases hall : s.httpConnections.Gives answers.httpConnection ∧
    s.requestQueues.Gives answers.requestQueue ∧ s.responses.Gives answers.response
  · obtain ⟨httpConnection, requestQueue, response, haccept⟩ :=
      onAccept_created hall fd tcpConnection
    have hcreated : (s.withHttpConnection tcpConnection httpConnection requestQueue
        response).Kept := ⟨h.sound, h.single, h.opened⟩
    have hset := hcreated.tcpConnectionSetCallbacks hfd tcpConnection httpConnection answers
    rw [haccept _ rfl]
    exact ⟨hset.sound, hset.single, hset.opened⟩
  · rw [onAccept_failed hall]
    exact h

theorem Kept.onIncomingConnection {s : SocketServer} (h : s.Kept) {fd : Nat}
    (hfd : fd ∉ s.descriptors) (answers : AcceptAnswers) :
    (s.onIncomingConnection fd answers).2.Kept := by
  by_cases htcp : s.tcpConnections.Gives answers.tcpConnection
  · obtain ⟨tcpConnection, hanswer, hfree⟩ := htcp
    have hcreated : (s.withTcpConnection fd tcpConnection).Kept :=
      ⟨h.sound, h.single, fun other hother => List.mem_cons_of_mem _ (h.opened other hother)⟩
    rw [onIncomingConnection_created hanswer hfree]
    exact hcreated.onAccept List.mem_cons_self tcpConnection answers
  · simp only [SocketServer.onIncomingConnection, tcpConnectionWithFd,
      Heap.create_of_not_gives htcp, Option.map_none, closeDescriptor]
    refine ⟨ELoop.sound_apply h.sound (.close fd), h.single, fun other hother => ?_⟩
    have hopen := h.opened other hother
    have hne : other ≠ fd := by
      rintro rfl
      exact hfd hopen
    simp [hopen, hne]

theorem Kept.tcpConnectionClose {s : SocketServer} (h : s.Kept) (tcpConnection : Nat)
    (accepted : ELoopWatchFdCallbackType → Bool) :
    (s.tcpConnectionClose tcpConnection accepted).Kept := by
  cases hfd : (s.tcpConnections tcpConnection).bind TcpConnectionObject.fd with
  | none =>
    simp only [SocketServer.tcpConnectionClose, hfd]
    exact h
  | some fd =>
    obtain ⟨hsound, hgone, hsub⟩ := h.sound.find_removed h.single fd accepted
    simp only [SocketServer.tcpConnectionClose, hfd]
    refine ⟨ELoop.sound_apply hsound (.close fd), h.single.sublist hsub, fun other hother => ?_⟩
    have hne : other ≠ fd := by
      rintro rfl
      exact (ELoop.find_eq_none_iff _ other).mp hgone hother
    have hopen : other ∈ s.descriptors := h.opened other (hsub.subset hother)
    simpa [closeDescriptor, removeFdWatch, hne] using hopen

theorem Kept.httpConnectionDestroy {s : SocketServer} (h : s.Kept) (httpConnection : Nat)
    (accepted : ELoopWatchFdCallbackType → Bool) :
    (s.httpConnectionDestroy httpConnection accepted).Kept := by
  cases hconnection : s.httpConnections httpConnection with
  | none =>
    simp only [SocketServer.httpConnectionDestroy, hconnection]
    exact h
  | some connection =>
    simp only [SocketServer.httpConnectionDestroy, hconnection]
    cases connection.tcpConnection with
    | none => exact ⟨h.sound, h.single, h.opened⟩
    | some tcpConnection =>
      have hclosed := h.tcpConnectionClose tcpConnection accepted
      exact ⟨hclosed.sound, hclosed.single, hclosed.opened⟩

theorem Kept.apply {s : SocketServer} (h : s.Kept) (event : SocketEvent) :
    (s.apply event).Kept := by
  cases event with
  | accept fd answers =>
    simp only [SocketServer.apply]
    split
    · exact h
    · exact h.onIncomingConnection (by assumption) answers
  | close tcpConnection accepted => exact h.tcpConnectionClose tcpConnection accepted
  | destroy httpConnection accepted => exact h.httpConnectionDestroy httpConnection accepted

theorem Kept.perform {s : SocketServer} (h : s.Kept) (events : List SocketEvent) :
    (s.perform events).Kept := by
  induction events generalizing s with
  | nil => exact h
  | cons event events ih => exact ih (h.apply event)

theorem kept_start (u : ServerSetup) : (start u).Kept := by
  have hempty : Kept { start u with loop := ELoop.new } :=
    ⟨ELoop.sound_new, List.nodup_nil, by simp [ELoop.new]⟩
  have hsignalFd : u.signalFd ∈ (start u).descriptors := by simp [start]
  have hlistenFd : u.listenFd ∈ (start u).descriptors := by simp [start]
  have hsignal := hempty.addFdWatch hsignalFd .read .onSignal (some u.signalRecord) true
  exact hsignal.addFdWatch hlistenFd .read .onIncomingConnection (some u.listenRecord) true

/-- Whatever came before, a socket that is accepted next is not stranded exactly
when its `TcpConnection` cannot be allocated or everything behind that succeeds. -/
theorem accepted_notStranded_iff (u : ServerSetup) (events : List SocketEvent) (fd : Nat)
    (hfd : fd ∉ ((start u).perform events).descriptors) (answers : AcceptAnswers) :
    ((start u).perform events).NotStranded fd answers ↔
      ¬ ((start u).perform events).tcpConnections.Gives answers.tcpConnection ∨
        ((start u).perform events).AllSucceed answers :=
  ((kept_start u).perform events).notStranded_iff hfd answers

/-- Descriptors 3 and 4 are the signals' and the listening socket's. -/
def setup : ServerSetup := ⟨3, 4, 100, 200, by decide, by decide⟩

theorem notStranded_first :
    5 ∉ ((start setup).perform []).descriptors ∧
    (((start setup).perform []).NotStranded 5
        ⟨some 10, some 20, some 30, some 40, some 300, fun _ => true⟩ ↔
      ¬ ((start setup).perform []).tcpConnections.Gives (some 10) ∨
        ((start setup).perform []).AllSucceed
          ⟨some 10, some 20, some 30, some 40, some 300, fun _ => true⟩) :=
  ⟨by decide, accepted_notStranded_iff setup [] 5 (by decide) _⟩

/-- There is no memory for the response: the socket stays open, and nobody has it. -/
theorem not_notStranded_response :
    ¬ ((start setup).perform []).NotStranded 5
      ⟨some 10, some 20, some 30, none, some 300, fun _ => true⟩ := by
  have hkept := (kept_start setup).perform []
  rw [hkept.notStranded_iff (by decide)]
  rintro (htcp | hsucceed)
  · exact htcp ⟨10, rfl, rfl⟩
  · obtain ⟨response, hresponse, -⟩ := hsucceed.response
    cases hresponse

end SocketServer

end Rapp
